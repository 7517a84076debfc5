import TelemetryCore.Run

namespace TelemetryCore

/-!
# What each operation of the wrapper changes

One lemma per operation of `batched::State`, saying which fields it touches and how, so that
the invariants of the next module are proved without unfolding the operations again.  The
grouping of `remove_nodes` is characterised here too: each group holds, in order, the nodes
to remove whose chain the underlying state knows.
-/

namespace OrdinaryState

/-- The chain `get_chain_by_node_id` reports, by genesis hash. -/
theorem getChainByNodeId_eq (st : OrdinaryState) (nodeId : NodeId) :
    (st.getChainByNodeId nodeId).map StateChain.genesisHash =
      if nodeId.chain ∈ st.chains then some nodeId.chain else none := by
  unfold getChainByNodeId
  split
  · rename_i member
    obtain ⟨chain, found⟩ := Option.isSome_iff_exists.mp (AList.lookup_isSome.mpr member)
    simp [found]
  · rename_i absent
    simp [AList.lookup_eq_none.mpr absent]

end OrdinaryState

namespace State

variable {s : State}

/-! ## Field lemmas -/

@[simp] theorem updatePending_state (g : BlockHash) (nodeId : NodeId) (f : NodeUpdates → NodeUpdates) :
    (s.updatePending g nodeId f).state = s.state := rfl

@[simp] theorem updatePending_nodeIds (g : BlockHash) (nodeId : NodeId) (f : NodeUpdates → NodeUpdates) :
    (s.updatePending g nodeId f).nodeIds = s.nodeIds := rfl

@[simp] theorem updatePending_sendNodeData (g : BlockHash) (nodeId : NodeId)
    (f : NodeUpdates → NodeUpdates) : (s.updatePending g nodeId f).sendNodeData = s.sendNodeData := rfl

@[simp] theorem updatePending_removedChains (g : BlockHash) (nodeId : NodeId)
    (f : NodeUpdates → NodeUpdates) : (s.updatePending g nodeId f).removedChains = s.removedChains := rfl

theorem lookup_updatePending (g : BlockHash) (nodeId : NodeId) (f : NodeUpdates → NodeUpdates)
    (h : BlockHash) :
    (s.updatePending g nodeId f).chains.lookup h =
      if h = g then
        some { (s.chains.lookup g).getD default with
          updatedNodes := ((s.chains.lookup g).getD default).updatedNodes.entryOrDefault nodeId f }
      else s.chains.lookup h :=
  HashMap.lookup_entryOrDefault_eq _ _ _ _

/-- `update_node` either changes nothing or stores the payload for the node the pair maps to,
in that node's chain. -/
theorem updateNode_cases (shardConnId : ConnId) (localId : ShardNodeId) (payload : Payload) :
    s.updateNode shardConnId localId payload = s ∨
      ∃ nodeId, (nodeId, (shardConnId, localId)) ∈ s.nodeIds.pairs ∧ s.sendNodeData = true ∧
        nodeId.chain ∈ s.state.chains ∧
        s.updateNode shardConnId localId payload =
          s.updatePending nodeId.chain nodeId (·.record payload) := by
  unfold updateNode
  split
  · exact .inl rfl
  rename_i nodeId mapped
  split
  · exact .inl rfl
  rename_i send
  simp only [Bool.not_eq_true', Bool.not_eq_false] at send
  split
  · rename_i chain found
    have hash := OrdinaryState.getChainByNodeId_genesisHash found
    refine .inr ⟨nodeId, BiMap.getByRight_eq_some.mp mapped, send, ?_, by rw [hash]⟩
    exact (OrdinaryState.getChainByNodeId_isSome nodeId).mp (by simp [found])
  · exact .inl rfl

/-- `update_node_location` records the location in the underlying state and, when node data is
sent and the id's chain is known, stores it for the id. -/
theorem updateNodeLocation_cases (nodeId : NodeId) (location : Location) :
    let located := { s with state := s.state.updateNodeLocation nodeId location }
    s.updateNodeLocation nodeId location = located ∨
      ∃ loc, location = some loc ∧ s.sendNodeData = true ∧ nodeId.chain ∈ s.state.chains ∧
        s.updateNodeLocation nodeId location =
          located.updatePending nodeId.chain nodeId ({ · with location := some loc }) := by
  intro located
  cases location with
  | none => exact .inl (by unfold updateNodeLocation; dsimp only; split <;> rfl)
  | some loc =>
    unfold updateNodeLocation
    dsimp only
    by_cases send : s.sendNodeData = true
    · rw [if_pos send]
      split
      · rename_i chain found
        have hash := OrdinaryState.getChainByNodeId_genesisHash found
        refine .inr ⟨loc, rfl, send, ?_, by rw [hash]⟩
        have known : nodeId.chain ∈ (s.state.updateNodeLocation nodeId (some loc)).chains :=
          (OrdinaryState.getChainByNodeId_isSome nodeId).mp (by rw [found]; rfl)
        exact (OrdinaryState.mem_chains_updateNodeLocation nodeId (some loc) nodeId.chain).mp known
      · exact .inl rfl
    · rw [if_neg send]
      exact .inl rfl

/-- `remove_node` either finds the pair mapped to no node and changes nothing, or drops the
pair's mapping and removes the node it mapped to. -/
theorem removeNode_cases (shardConnId : ConnId) (localId : ShardNodeId) :
    ((∀ nodeId, (nodeId, (shardConnId, localId)) ∉ s.nodeIds.pairs) ∧ s.removeNode shardConnId localId = s) ∨
      ∃ nodeId, (nodeId, (shardConnId, localId)) ∈ s.nodeIds.pairs ∧
        s.removeNode shardConnId localId =
          { s with nodeIds := (s.nodeIds.removeByRight (shardConnId, localId)).2 }.removeNodes [nodeId] := by
  rcases result : s.nodeIds.removeByRight (shardConnId, localId) with ⟨_ | ⟨nodeId, pair⟩, nodeIds⟩
  · refine .inl ⟨fun nodeId member => ?_, by simp only [removeNode, result]⟩
    have found := BiMap.removeByRight_fst_eq_some.mpr ⟨member, rfl⟩
    rw [result] at found
    cases found
  · obtain ⟨mapped, right⟩ := BiMap.removeByRight_fst_eq_some.mp (congrArg Prod.fst result)
    subst right
    exact .inr ⟨nodeId, mapped, by simp only [removeNode, result]⟩

/-- `update_node` for a pair mapped to a node of a known chain: the payload is stored exactly
when node data is sent. -/
theorem updateNode_of_getByRight {shardConnId : ConnId} {localId : ShardNodeId} {nodeId : NodeId}
    (found : s.nodeIds.getByRight (shardConnId, localId) = some nodeId)
    (known : nodeId.chain ∈ s.state.chains) (payload : Payload) :
    s.updateNode shardConnId localId payload =
      if s.sendNodeData then s.updatePending nodeId.chain nodeId (·.record payload) else s := by
  obtain ⟨chain, lookup⟩ := Option.isSome_iff_exists.mp (AList.lookup_isSome.mpr known)
  unfold updateNode
  simp only [found, OrdinaryState.getChainByNodeId, lookup, Option.map_some']
  cases s.sendNodeData <;> rfl

/-- `update_node_location` with a location, for a node of a known chain: the location is
recorded, and stored exactly when node data is sent. -/
theorem updateNodeLocation_some {nodeId : NodeId} (known : nodeId.chain ∈ s.state.chains)
    (loc : NodeLocation) :
    s.updateNodeLocation nodeId (some loc) =
      if s.sendNodeData then
        { s with state := s.state.updateNodeLocation nodeId (some loc) }.updatePending nodeId.chain nodeId
          ({ · with location := some loc })
      else { s with state := s.state.updateNodeLocation nodeId (some loc) } := by
  have stillKnown := (OrdinaryState.mem_chains_updateNodeLocation nodeId (some loc) nodeId.chain).mpr known
  obtain ⟨chain, lookup⟩ := Option.isSome_iff_exists.mp (AList.lookup_isSome.mpr stillKnown)
  unfold updateNodeLocation
  dsimp only
  by_cases send : s.sendNodeData = true
  · rw [if_pos send, if_pos send]
    simp only [OrdinaryState.getChainByNodeId, lookup, Option.map_some']
  · rw [if_neg send, if_neg send]

theorem updateNodeLocation_none (nodeId : NodeId) :
    s.updateNodeLocation nodeId none = { s with state := s.state.updateNodeLocation nodeId none } := by
  unfold updateNodeLocation
  dsimp only
  split <;> rfl

/-- `add_node`: a rejection changes nothing; an admission is the underlying admission plus the
wrapper's records of it. -/
theorem addNode_cases (genesisHash : BlockHash) (shardConnId : ConnId) (localId : ShardNodeId)
    (details : NodeDetails) :
    (∃ reason, s.addNode genesisHash shardConnId localId details = (s, .error reason)) ∨
      ∃ added state, s.state.addNode genesisHash details = (.nodeAddedToChain added, state) ∧
        s.addNode genesisHash shardConnId localId details =
          ({ s with
              state
              removedChains := s.removedChains.remove genesisHash
              nodeIds := s.nodeIds.insert added.id (shardConnId, localId)
              chains := s.chains.entryOrDefault genesisHash (recordAdded s.sendNodeData added) },
            .ok added.id) := by
  unfold addNode
  split
  · rename_i added state result
    exact .inr ⟨added, state, result, rfl⟩
  · exact .inl ⟨_, rfl⟩
  · exact .inl ⟨_, rfl⟩

@[simp] theorem recordAdded_updatedNodes (sendNodeData : Bool)
    (added : OrdinaryState.NodeAddedToChain) (updates : ChainUpdates) :
    (recordAdded sendNodeData added updates).updatedNodes = updates.updatedNodes := by
  unfold recordAdded; split <;> rfl

@[simp] theorem recordAdded_nodeCount (sendNodeData : Bool)
    (added : OrdinaryState.NodeAddedToChain) (updates : ChainUpdates) :
    (recordAdded sendNodeData added updates).nodeCount = added.chainNodeCount := by
  unfold recordAdded; split <;> rfl

theorem recordAdded_addedNodes (sendNodeData : Bool)
    (added : OrdinaryState.NodeAddedToChain) (updates : ChainUpdates) :
    (recordAdded sendNodeData added updates).addedNodes =
      if sendNodeData then updates.addedNodes.insert added.id added.node else updates.addedNodes := by
  unfold recordAdded; split <;> rfl

theorem recordAdded_removedNodes (sendNodeData : Bool)
    (added : OrdinaryState.NodeAddedToChain) (updates : ChainUpdates) :
    (recordAdded sendNodeData added updates).removedNodes =
      if sendNodeData then updates.removedNodes.remove added.id else updates.removedNodes := by
  unfold recordAdded; split <;> rfl

@[simp] theorem drainUpdatesForAllFeeds_state : s.drainUpdatesForAllFeeds.1.state = s.state := rfl

@[simp] theorem drainUpdatesForAllFeeds_nodeIds : s.drainUpdatesForAllFeeds.1.nodeIds = s.nodeIds := rfl

@[simp] theorem drainUpdatesForAllFeeds_sendNodeData :
    s.drainUpdatesForAllFeeds.1.sendNodeData = s.sendNodeData := rfl

theorem lookup_drainUpdatesForAllFeeds (h : BlockHash) :
    s.drainUpdatesForAllFeeds.1.chains.lookup h =
      (s.chains.lookup h).map ({ · with hasChainLabelChanged := false }) :=
  HashMap.lookup_mapValues _ _ _

@[simp] theorem drainChainUpdates_nodeIds : s.drainChainUpdates.1.nodeIds = s.nodeIds := rfl

@[simp] theorem drainChainUpdates_sendNodeData :
    s.drainChainUpdates.1.sendNodeData = s.sendNodeData := rfl

theorem lookup_drainChainUpdates (h : BlockHash) :
    s.drainChainUpdates.1.chains.lookup h =
      (s.chains.lookup h).map (fun updates => if updates.nodeCount ≠ 0 then updates.drained else updates) :=
  HashMap.lookup_mapValues _ _ _

@[simp] theorem updateAddedNodesMessages_state : s.updateAddedNodesMessages.state = s.state := by
  unfold updateAddedNodesMessages; split <;> rfl

@[simp] theorem updateAddedNodesMessages_nodeIds : s.updateAddedNodesMessages.nodeIds = s.nodeIds := by
  unfold updateAddedNodesMessages; split <;> rfl

@[simp] theorem updateAddedNodesMessages_chains : s.updateAddedNodesMessages.chains = s.chains := by
  unfold updateAddedNodesMessages; split <;> rfl

@[simp] theorem updateAddedNodesMessages_sendNodeData :
    s.updateAddedNodesMessages.sendNodeData = s.sendNodeData := by
  unfold updateAddedNodesMessages; split <;> rfl

/-- `State::new` succeeds with the loaded metadata, each of its chains seeding an entry with
that chain's highest count. -/
theorem new_ok {denylist : List String} {maxThirdPartyNodes : Nat} {firstPartyNetworks : List BlockHash}
    {sendNodeData : Bool} {metadataPath : Option String} {stored : Option (Except String Metadata)}
    {s : State}
    (created : State.new denylist maxThirdPartyNodes firstPartyNetworks sendNodeData metadataPath stored =
      .ok s) :
    ∃ metadata : Metadata, s =
      { state := OrdinaryState.new denylist maxThirdPartyNodes firstPartyNetworks
        chains := metadata.chains.mapValues (fun _ stored => { highestNodeCount := stored.highestNodeCount })
        nodeIds := ∅
        chainNodes := ∅
        removedChains := ∅
        sendNodeData
        metadata
        metadataPath } := by
  unfold State.new at created
  split at created
  · rename_i file
    cases file with
    | error => cases created
    | ok metadata => exact ⟨metadata, by cases created; rfl⟩
  · exact ⟨default, by cases created; rfl⟩

@[simp] theorem removeChainNodes_chains :
    ∀ (s : State) (updates : ChainUpdates) (nodeIds : List NodeId),
      (s.removeChainNodes updates nodeIds).1.chains = s.chains
  | _, _, [] => rfl
  | s, updates, nodeId :: rest => by
    unfold removeChainNodes
    dsimp only
    split <;> exact removeChainNodes_chains _ _ rest

@[simp] theorem removeChainNodes_sendNodeData :
    ∀ (s : State) (updates : ChainUpdates) (nodeIds : List NodeId),
      (s.removeChainNodes updates nodeIds).1.sendNodeData = s.sendNodeData
  | _, _, [] => rfl
  | s, updates, nodeId :: rest => by
    unfold removeChainNodes
    dsimp only
    split <;> exact removeChainNodes_sendNodeData _ _ rest

/-! ## The grouping of `remove_nodes` -/

/-- The chain `remove_nodes` files a node under, if the underlying state knows it. -/
def chainOf (st : OrdinaryState) (nodeId : NodeId) : Option BlockHash :=
  (st.getChainByNodeId nodeId).map StateChain.genesisHash

theorem chainOf_eq_some {st : OrdinaryState} {nodeId : NodeId} {g : BlockHash}
    (filed : chainOf st nodeId = some g) : nodeId.chain = g ∧ g ∈ st.chains := by
  rw [chainOf, OrdinaryState.getChainByNodeId_eq] at filed
  split at filed
  · cases filed; exact ⟨rfl, ‹_›⟩
  · cases filed

private theorem groupStep_lookup (st : OrdinaryState) (g : BlockHash) :
    ∀ (nodeIds : List NodeId) (groups : HashMap BlockHash (List NodeId)),
      ((nodeIds.foldl (fun groups nodeId =>
          match st.getChainByNodeId nodeId with
          | some chain => groups.entryOrDefault chain.genesisHash (· ++ [nodeId])
          | none => groups) groups).lookup g).getD [] =
        (groups.lookup g).getD [] ++ nodeIds.filter (fun nodeId => chainOf st nodeId = some g)
  | [], _ => by simp
  | nodeId :: rest, groups => by
    rw [List.foldl_cons, groupStep_lookup st g rest]
    cases found : st.getChainByNodeId nodeId with
    | none => simp [chainOf, found]
    | some chain =>
      by_cases same : g = chain.genesisHash
      · subst same; simp [chainOf, found]; rfl
      · simp [chainOf, found, same, HashMap.lookup_entryOrDefault_ne _ _ same, Ne.symm same]

private theorem groupStep_mem (st : OrdinaryState) (g : BlockHash) :
    ∀ (nodeIds : List NodeId) (groups : HashMap BlockHash (List NodeId)),
      g ∈ nodeIds.foldl (fun groups nodeId =>
          match st.getChainByNodeId nodeId with
          | some chain => groups.entryOrDefault chain.genesisHash (· ++ [nodeId])
          | none => groups) groups →
        g ∈ groups ∨ ∃ nodeId ∈ nodeIds, chainOf st nodeId = some g
  | [], _, member => .inl member
  | nodeId :: rest, groups, member => by
    rw [List.foldl_cons] at member
    rcases groupStep_mem st g rest _ member with earlier | later
    · cases found : st.getChainByNodeId nodeId with
      | none => simp only [found] at earlier; exact .inl earlier
      | some chain =>
        simp only [found, HashMap.entryOrDefault, AList.mem_insert] at earlier
        rcases earlier with same | earlier
        · exact .inr ⟨nodeId, List.mem_cons_self _ _, by simp [chainOf, found, same]⟩
        · exact .inl earlier
    · obtain ⟨other, member, chain⟩ := later
      exact .inr ⟨other, List.mem_cons_of_mem _ member, chain⟩

/-- Each group is, in order, the nodes to remove that are filed under its chain. -/
theorem groupByChain_lookup {st : OrdinaryState} {nodeIds : List NodeId} {g : BlockHash}
    {group : List NodeId} (found : (groupByChain st nodeIds).lookup g = some group) :
    group = nodeIds.filter (fun nodeId => chainOf st nodeId = some g) := by
  have := groupStep_lookup st g nodeIds ∅
  change ((groupByChain st nodeIds).lookup g).getD [] = _ at this
  simpa [found] using this

/-- Every node to remove whose chain is known lands in its chain's group. -/
theorem groupByChain_mem {st : OrdinaryState} {nodeIds : List NodeId} {g : BlockHash} :
    g ∈ groupByChain st nodeIds ↔ ∃ nodeId ∈ nodeIds, chainOf st nodeId = some g := by
  constructor
  · intro member
    simpa using groupStep_mem st g nodeIds ∅ member
  · rintro ⟨nodeId, member, chain⟩
    rw [← AList.lookup_isSome, Option.isSome_iff_ne_none]
    intro missing
    have grouped := groupStep_lookup st g nodeIds ∅
    change ((groupByChain st nodeIds).lookup g).getD [] = _ at grouped
    simp only [missing, Option.getD_none, AList.lookup_empty, List.nil_append, List.nil_eq,
      List.filter_eq_nil_iff] at grouped
    simpa [chain] using grouped nodeId member

/-- The nodes of a group are nodes of the group's chain. -/
theorem chain_of_mem_groupByChain {st : OrdinaryState} {nodeIds : List NodeId}
    {group : Σ _ : BlockHash, List NodeId} (member : group ∈ (groupByChain st nodeIds).entries) :
    ∀ nodeId ∈ group.2, nodeId.chain = group.1 := by
  have found : (groupByChain st nodeIds).lookup group.1 = some group.2 :=
    (AList.mem_lookup_iff).mpr member
  intro nodeId inGroup
  rw [groupByChain_lookup found, List.mem_filter] at inGroup
  exact (chainOf_eq_some (of_decide_eq_true inGroup.2)).1

end State

end TelemetryCore
