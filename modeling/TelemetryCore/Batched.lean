import TelemetryCore.Ordinary

namespace TelemetryCore

/-!
# The batching wrapper

A model of `state/batched.rs`, function by function.  The wrapper owns the underlying state
and, per chain, the deltas accumulated since the last drain: nodes added, nodes removed, and
for each node the latest payload of each kind and its latest location.  A drain turns these
into feed messages, cut into chunks of `MSGS_PER_WS_MSG` messages, and replays the stored
payloads through the underlying `update_node`.

Rust's early `return`s and `continue`s become branches, `&mut self` methods return the new
state, and `HashMap` iteration is the `AList` order.  Writing the metadata file is an effect
with no bearing on the state; `drain_updates_for_all_feeds` returns the path and contents it
writes.  A serialized chunk is the list of messages pushed into it.
-/

/-- `NodeUpdates`: for one node, the latest payload of each kind and the latest location
received since the last drain. -/
structure NodeUpdates where
  systemConnected : Option SystemConnected := none
  systemInterval : Option SystemInterval := none
  blockImport : Option Block := none
  notifyFinalized : Option Block := none
  afgAuthoritySet : Option AfgAuthoritySet := none
  location : Location := none
deriving DecidableEq, Repr

instance : Inhabited NodeUpdates := ⟨{}⟩

/-- The match in `update_node`: a payload overwrites the slot of its kind. -/
def NodeUpdates.record (updates : NodeUpdates) : Payload → NodeUpdates
  | .systemConnected connected => { updates with systemConnected := some connected }
  | .systemInterval interval => { updates with systemInterval := some interval }
  | .blockImport block => { updates with blockImport := some block }
  | .notifyFinalized finalized => { updates with notifyFinalized := some finalized }
  | .afgAuthoritySet authority => { updates with afgAuthoritySet := some authority }

/-- The stored payloads in the order `drain_chain_updates` replays them. -/
def NodeUpdates.payloads (updates : NodeUpdates) : List Payload :=
  (updates.systemConnected.map .systemConnected).toList ++
    (updates.systemInterval.map .systemInterval).toList ++
    (updates.blockImport.map .blockImport).toList ++
    (updates.notifyFinalized.map .notifyFinalized).toList ++
    (updates.afgAuthoritySet.map .afgAuthoritySet).toList

/-- `ChainMetadata`. -/
structure ChainMetadata where
  highestNodeCount : Nat
deriving DecidableEq, Repr

/-- `Metadata`: the persisted highest node count of each chain. -/
structure Metadata where
  chains : HashMap BlockHash ChainMetadata

instance : Inhabited Metadata := ⟨⟨∅⟩⟩

/-- `ChainUpdates`: a chain's counts and label, and its deltas since the last drain. -/
structure ChainUpdates where
  nodeCount : Nat := 0
  highestNodeCount : Nat := 0
  hasChainLabelChanged : Bool := false
  chainLabel : String := ""
  addedNodes : HashMap NodeId Node := ∅
  removedNodes : HashSet NodeId := ∅
  updatedNodes : HashMap NodeId NodeUpdates := ∅

instance : Inhabited ChainUpdates := ⟨{}⟩

/-- A chain's entry once its three delta sets are drained. -/
def ChainUpdates.drained (updates : ChainUpdates) : ChainUpdates :=
  { updates with addedNodes := ∅, removedNodes := ∅, updatedNodes := ∅ }

/-- One pass of the loop in `Metadata::update`: a new chain, or a changed count, is stored
and sets the flag. -/
def Metadata.updateEntry (acc : Metadata × Bool) (hash : BlockHash) (chain : ChainUpdates) :
    Metadata × Bool :=
  match acc.1.chains.lookup hash with
  | none => (⟨acc.1.chains.insert hash ⟨chain.highestNodeCount⟩⟩, true)
  | some stored =>
    if stored.highestNodeCount ≠ chain.highestNodeCount then
      (⟨acc.1.chains.insert hash ⟨chain.highestNodeCount⟩⟩, true)
    else acc

/-- `Metadata::update`: the new metadata, and whether anything was stored. -/
def Metadata.update (metadata : Metadata) (chains : List (Σ _ : BlockHash, ChainUpdates)) :
    Metadata × Bool :=
  chains.foldl (fun acc entry => Metadata.updateEntry acc entry.1 entry.2) (metadata, false)

/-- A chunk ready for a feed (`ToFeedWebsocket`). -/
abbrev ToFeedWebsocket := FeedMessageSerializer

/-- `MuteReason`: why a shard is told to stop forwarding a node. -/
inductive MuteReason where
  | overquota
  | chainNotAllowed
deriving DecidableEq, Repr

/-- `batched::State`. -/
structure State where
  state : OrdinaryState
  chains : HashMap BlockHash ChainUpdates
  nodeIds : BiMap NodeId (ConnId × ShardNodeId)
  chainNodes : HashMap BlockHash (List ToFeedWebsocket)
  removedChains : HashSet BlockHash
  sendNodeData : Bool
  metadata : Metadata
  metadataPath : Option String

/-- `MSGS_PER_WS_MSG`. -/
def msgsPerWsMsg : Nat := 64

namespace State

/-- `State::new`.  `stored` is what reading and parsing the metadata file gave: nothing when
the file does not exist, or the read or parse error, which makes construction fail. -/
def new (denylist : List String) (maxThirdPartyNodes : Nat) (firstPartyNetworks : List BlockHash)
    (sendNodeData : Bool) (metadataPath : Option String)
    (stored : Option (Except String Metadata)) : Except String State := do
  let metadata ← match metadataPath, stored with
    | some _, some file => file
    | _, _ => pure default
  pure {
    state := OrdinaryState.new denylist maxThirdPartyNodes firstPartyNetworks
    chains := metadata.chains.mapValues (fun _ stored => { highestNodeCount := stored.highestNodeCount })
    nodeIds := ∅
    chainNodes := ∅
    removedChains := ∅
    sendNodeData
    metadata
    metadataPath }

/-- `get_chain_max_node_count`. -/
def getChainMaxNodeCount (s : State) (genesisHash : BlockHash) : Option Nat :=
  (s.metadata.chains.lookup genesisHash).map (·.highestNodeCount)

/-- The announcement of one chain in `drain_updates_for_all_feeds`. -/
def chainAnnouncement (genesisHash : BlockHash) (updates : ChainUpdates) : FeedMessageSerializer :=
  (if updates.hasChainLabelChanged then [.removedChain genesisHash] else []) ++
    [.addedChain updates.chainLabel genesisHash updates.nodeCount updates.highestNodeCount]

/-- `drain_updates_for_all_feeds`: the new state, the chain-level messages for every feed, and
the metadata file write it attempts, if any. -/
def drainUpdatesForAllFeeds (s : State) :
    State × FeedMessageSerializer × Option (String × Metadata) :=
  let metadataUpdate := s.metadata.update s.chains.entries
  let write := if metadataUpdate.2 then s.metadataPath.map (·, metadataUpdate.1) else none
  let feed := s.chains.entries.flatMap (fun entry => chainAnnouncement entry.1 entry.2) ++
    s.removedChains.elems.map .removedChain
  ({ s with
      metadata := metadataUpdate.1
      chains := s.chains.mapValues (fun _ updates => { updates with hasChainLabelChanged := false })
      removedChains := ∅ },
    feed, write)

/-! ## `drain_chain_updates` -/

/-- The body of the updated-nodes loop for one node: its location, then its stored payloads
replayed through the underlying `update_node`. -/
def replayNodeUpdates (acc : OrdinaryState × FeedMessageSerializer) (nodeId : NodeId)
    (updates : NodeUpdates) : OrdinaryState × FeedMessageSerializer :=
  let feed := match updates.location with
    | some loc => acc.2 ++ [.locatedNode nodeId.slot loc.latitude loc.longitude loc.city]
    | none => acc.2
  updates.payloads.foldl (fun acc payload => acc.1.updateNode nodeId payload acc.2) (acc.1, feed)

/-- One chunk of updated nodes, serialized into one feed. -/
def replayChunk (st : OrdinaryState) (chunk : List (Σ _ : NodeId, NodeUpdates)) :
    OrdinaryState × FeedMessageSerializer :=
  chunk.foldl (fun acc entry => replayNodeUpdates acc entry.1 entry.2) (st, [])

/-- All chunks of updated nodes, in order, threading the underlying state. -/
def replayChunks (st : OrdinaryState) :
    List (List (Σ _ : NodeId, NodeUpdates)) → OrdinaryState × List FeedMessageSerializer
  | [] => (st, [])
  | chunk :: rest =>
    let first := replayChunk st chunk
    let others := replayChunks first.1 rest
    (others.1, first.2 :: others.2)

/-- The chunks drained from one chain: removed nodes, then added nodes, then updated nodes. -/
def chainUpdateChunks (st : OrdinaryState) (updates : ChainUpdates) :
    OrdinaryState × List FeedMessageSerializer :=
  let removed := (chunks msgsPerWsMsg updates.removedNodes.elems).map
    (·.map fun nodeId => .removedNode nodeId.slot)
  let added := (chunks msgsPerWsMsg updates.addedNodes.entries).map
    (·.map fun entry => .addedNode entry.1.slot entry.2)
  let replayed := replayChunks st (chunks msgsPerWsMsg updates.updatedNodes.entries)
  (replayed.1, removed ++ added ++ replayed.2)

/-- The iterator of `drain_chain_updates`, fully consumed over the chains it visits. -/
def drainChains (st : OrdinaryState) :
    List (Σ _ : BlockHash, ChainUpdates) → OrdinaryState × List (BlockHash × List FeedMessageSerializer)
  | [] => (st, [])
  | entry :: rest =>
    let first := chainUpdateChunks st entry.2
    let others := drainChains first.1 rest
    (others.1, (entry.1, first.2) :: others.2)

/-- `drain_chain_updates`, fully consumed: chains with no nodes are skipped and keep their
deltas; every other chain's deltas are drained into chunks. -/
def drainChainUpdates (s : State) : State × List (BlockHash × List FeedMessageSerializer) :=
  let drained := drainChains s.state (s.chains.entries.filter (fun entry => entry.2.nodeCount ≠ 0))
  ({ s with
      state := drained.1
      chains := s.chains.mapValues (fun _ updates =>
        if updates.nodeCount ≠ 0 then updates.drained else updates) },
    drained.2)

/-! ## Admission, payloads and removal -/

/-- What `add_node` writes into its chain's entry. -/
def recordAdded (sendNodeData : Bool) (added : OrdinaryState.NodeAddedToChain)
    (updates : ChainUpdates) : ChainUpdates :=
  let updates := if sendNodeData then
      { updates with
        removedNodes := updates.removedNodes.remove added.id
        addedNodes := updates.addedNodes.insert added.id added.node }
    else updates
  { updates with
    hasChainLabelChanged := added.hasChainLabelChanged
    nodeCount := added.chainNodeCount
    highestNodeCount := max updates.highestNodeCount added.chainNodeCount
    chainLabel := added.newChainLabel }

/-- `add_node`. -/
def addNode (s : State) (genesisHash : BlockHash) (shardConnId : ConnId) (localId : ShardNodeId)
    (node : NodeDetails) : State × Except MuteReason NodeId :=
  match s.state.addNode genesisHash node with
  | (.nodeAddedToChain added, state) =>
    ({ s with
        state
        removedChains := s.removedChains.remove genesisHash
        nodeIds := s.nodeIds.insert added.id (shardConnId, localId)
        chains := s.chains.entryOrDefault genesisHash (recordAdded s.sendNodeData added) },
      .ok added.id)
  | (.chainOverQuota, _) => (s, .error .overquota)
  | (.chainOnDenyList, _) => (s, .error .chainNotAllowed)

/-- `self.chains.entry(genesis_hash).or_default().updated_nodes.entry(node_id).or_default()`,
rewritten by `f`. -/
def updatePending (s : State) (genesisHash : BlockHash) (nodeId : NodeId)
    (f : NodeUpdates → NodeUpdates) : State :=
  { s with
    chains := s.chains.entryOrDefault genesisHash (fun updates =>
      { updates with updatedNodes := updates.updatedNodes.entryOrDefault nodeId f }) }

/-- `update_node`: the payload is stored for the node its shard connection and local id map
to, overwriting the last one of its kind. -/
def updateNode (s : State) (shardConnId : ConnId) (localId : ShardNodeId) (payload : Payload) :
    State :=
  match s.nodeIds.getByRight (shardConnId, localId) with
  | none => s
  | some nodeId =>
    if !s.sendNodeData then s
    else
      match s.state.getChainByNodeId nodeId with
      | some chain => s.updatePending chain.genesisHash nodeId (·.record payload)
      | none => s

/-- The loop of `remove_nodes` over the nodes of one chain, on the chain's entry `updates`. -/
def removeChainNodes (s : State) (updates : ChainUpdates) : List NodeId → State × ChainUpdates
  | [] => (s, updates)
  | nodeId :: rest =>
    let s := { s with nodeIds := s.nodeIds.removeByLeft nodeId }
    match s.state.removeNode nodeId with
    | (some removed, state) =>
      let updates := { updates with
        chainLabel := removed.newChainLabel
        nodeCount := removed.chainNodeCount }
      let updates := if s.sendNodeData then
          { updates with
            addedNodes := updates.addedNodes.erase nodeId
            updatedNodes := updates.updatedNodes.erase nodeId
            removedNodes := updates.removedNodes.insert nodeId }
        else updates
      removeChainNodes { s with state } updates rest
    | (none, _) => removeChainNodes s updates rest

/-- One chain of `remove_nodes`: when the nodes to remove are as many as the chain's count, the
whole entry is dropped and the chain is reported removed; otherwise the nodes are removed one
by one. -/
def removeChain (s : State) (genesisHash : BlockHash) (nodeIds : List NodeId) : State :=
  match s.chains.lookup genesisHash with
  | none => s
  | some updates =>
    if updates.nodeCount = nodeIds.length then
      { s with
        chains := s.chains.erase genesisHash
        removedChains := s.removedChains.insert genesisHash }
    else
      let removed := s.removeChainNodes updates nodeIds
      { removed.1 with chains := removed.1.chains.insert genesisHash removed.2 }

/-- The grouping of `remove_nodes`: the nodes whose chain the underlying state knows, by chain. -/
def groupByChain (st : OrdinaryState) (nodeIds : List NodeId) : HashMap BlockHash (List NodeId) :=
  nodeIds.foldl (fun groups nodeId =>
    match st.getChainByNodeId nodeId with
    | some chain => groups.entryOrDefault chain.genesisHash (· ++ [nodeId])
    | none => groups) ∅

/-- `remove_nodes`. -/
def removeNodes (s : State) (nodeIds : List NodeId) : State :=
  (groupByChain s.state nodeIds).entries.foldl (fun s entry => s.removeChain entry.1 entry.2) s

/-- `remove_node`: the mapping is dropped first, then the node is removed. -/
def removeNode (s : State) (shardConnId : ConnId) (localId : ShardNodeId) : State :=
  match s.nodeIds.removeByRight (shardConnId, localId) with
  | (some (nodeId, _), nodeIds) => { s with nodeIds }.removeNodes [nodeId]
  | (none, _) => s

/-- The nodes `disconnect_node` removes: those mapped from the connection. -/
def nodesOfConnection (s : State) (shardConnId : ConnId) : List NodeId :=
  (s.nodeIds.pairs.filter (fun pair => decide (pair.2.1 = shardConnId))).map Prod.fst

/-- `disconnect_node`. -/
def disconnectNode (s : State) (shardConnId : ConnId) : State :=
  s.removeNodes (s.nodesOfConnection shardConnId)

/-- `update_node_location`. -/
def updateNodeLocation (s : State) (nodeId : NodeId) (location : Location) : State :=
  let s := { s with state := s.state.updateNodeLocation nodeId location }
  if s.sendNodeData then
    match location with
    | some loc =>
      match s.state.getChainByNodeId nodeId with
      | some chain => s.updatePending chain.genesisHash nodeId ({ · with location := some loc })
      | none => s
    | none => s
  else s

/-! ## The roster for new subscribers -/

/-- What the roster says about one occupied slot. -/
def rosterMessages (slot : Nat) (node : Node) : FeedMessageSerializer :=
  [.addedNode slot node, .finalizedBlock slot node.finalized.height node.finalized.hash] ++
    (if node.stale then [.staleNode slot] else [])

/-- The roster of one chain: its enumerated slots in windows of `MSGS_PER_WS_MSG`, a window
without nodes giving no chunk. -/
def rosterChunks (nodes : List (Option Node)) : List ToFeedWebsocket :=
  (chunks msgsPerWsMsg nodes.enum).filterMap (fun window =>
    intoFinalized (window.flatMap (fun entry =>
      match entry.2 with
      | some node => rosterMessages entry.1 node
      | none => [])))

/-- `update_added_nodes_messages`. -/
def updateAddedNodesMessages (s : State) : State :=
  if !s.sendNodeData then s
  else
    { s with
      chainNodes := s.state.iterChains.foldl (fun chainNodes chain =>
        chainNodes.insert chain.genesisHash (rosterChunks chain.nodesSlice)) ∅ }

/-- `added_nodes_messages`. -/
def addedNodesMessages (s : State) (genesisHash : BlockHash) : Option (List ToFeedWebsocket) :=
  s.chainNodes.lookup genesisHash

end State

end TelemetryCore
