import TelemetryCore.Steps

namespace TelemetryCore

/-!
# What a drain replays

`drain_chain_updates` replays each stored payload through the underlying `update_node` and
serializes the result.  Replaying never allocates or frees a slot, so the underlying state
keeps its shape (`SameShape`): the same nodes are held, with the same counts and labels.  Everything a
drain emits therefore depends only on the state it starts from, and the chunking is
invisible once the chunks are concatenated.  This module states the drain's effect in that
form: the record each node ends with, and the messages each chain receives.
-/

namespace OrdinaryState

variable {st st' st'' : OrdinaryState}

/-- Two underlying states with the same nodes held, chain by chain, and the same counts and
labels; only the records of held nodes may differ. -/
structure SameShape (st st' : OrdinaryState) : Prop where
  held : ∀ nodeId, (st'.node nodeId).isSome = (st.node nodeId).isSome
  count : ∀ genesisHash, st'.nodeCount genesisHash = st.nodeCount genesisHash
  chains : ∀ genesisHash, genesisHash ∈ st'.chains ↔ genesisHash ∈ st.chains
  labels : ∀ genesisHash,
    (st'.chains.lookup genesisHash).map Chain.label = (st.chains.lookup genesisHash).map Chain.label

namespace SameShape

theorem refl (st : OrdinaryState) : SameShape st st :=
  ⟨fun _ => rfl, fun _ => rfl, fun _ => Iff.rfl, fun _ => rfl⟩

theorem trans (first : SameShape st st') (second : SameShape st' st'') : SameShape st st'' :=
  ⟨fun nodeId => (second.held nodeId).trans (first.held nodeId),
    fun genesisHash => (second.count genesisHash).trans (first.count genesisHash),
    fun genesisHash => (second.chains genesisHash).trans (first.chains genesisHash),
    fun genesisHash => (second.labels genesisHash).trans (first.labels genesisHash)⟩

/-- The chain `remove_nodes` files a node under depends only on the shape. -/
theorem getChainByNodeId_map (shape : SameShape st st') (nodeId : NodeId) :
    (st'.getChainByNodeId nodeId).map StateChain.genesisHash =
      (st.getChainByNodeId nodeId).map StateChain.genesisHash := by
  simp only [getChainByNodeId_eq, shape.chains]

end SameShape

theorem sameShape_setNode {nodeId : NodeId} (held : (st.node nodeId).isSome) (replacement : Node) :
    SameShape st (st.setNode nodeId replacement) where
  held other := by
    rw [node_setNode held]
    split
    · subst other; simp [held]
    · rfl
  count := nodeCount_setNode held replacement
  chains := mem_chains_setNode nodeId replacement
  labels := label_setNode nodeId replacement

theorem sameShape_updateNode (nodeId : NodeId) (payload : Payload) (feed : FeedMessageSerializer) :
    SameShape st (st.updateNode nodeId payload feed).1 := by
  cases held : st.node nodeId with
  | none => rw [updateNode_of_not_held held]; exact .refl st
  | some node =>
    rw [updateNode_of_node held]
    exact sameShape_setNode (by simp [held]) _

theorem sameShape_updateNodeLocation (nodeId : NodeId) (location : Location) :
    SameShape st (st.updateNodeLocation nodeId location) where
  held other := by
    rw [node_updateNodeLocation]
    split
    · subst other; cases st.node nodeId <;> rfl
    · rfl
  count := nodeCount_updateNodeLocation nodeId location
  chains := mem_chains_updateNodeLocation nodeId location
  labels := label_updateNodeLocation nodeId location

end OrdinaryState

open OrdinaryState

namespace State

/-! ## One node's replay -/

/-- The loop over one node's stored payloads inside `replay_node_updates`. -/
def replayPayloads (nodeId : NodeId) (payloads : List Payload)
    (acc : OrdinaryState × FeedMessageSerializer) : OrdinaryState × FeedMessageSerializer :=
  payloads.foldl (fun acc payload => acc.1.updateNode nodeId payload acc.2) acc

@[simp] theorem replayPayloads_nil (nodeId : NodeId) (acc : OrdinaryState × FeedMessageSerializer) :
    replayPayloads nodeId [] acc = acc := rfl

@[simp] theorem replayPayloads_cons (nodeId : NodeId) (payload : Payload) (rest : List Payload)
    (acc : OrdinaryState × FeedMessageSerializer) :
    replayPayloads nodeId (payload :: rest) acc =
      replayPayloads nodeId rest (acc.1.updateNode nodeId payload acc.2) := rfl

theorem replayNodeUpdates_eq_replayPayloads (acc : OrdinaryState × FeedMessageSerializer)
    (nodeId : NodeId) (updates : NodeUpdates) :
    replayNodeUpdates acc nodeId updates =
      replayPayloads nodeId updates.payloads
        (acc.1, acc.2 ++ (updates.location.map fun loc =>
          FeedMessage.locatedNode nodeId.slot loc.latitude loc.longitude loc.city).toList) := by
  unfold replayNodeUpdates replayPayloads
  cases updates.location <;> simp

/-- The messages replaying a node's stored updates emits: its location, then, if the node is
held, one message per stored payload in replay order. -/
def replayMessages (st : OrdinaryState) (nodeId : NodeId) (updates : NodeUpdates) :
    FeedMessageSerializer :=
  (updates.location.map fun loc =>
      FeedMessage.locatedNode nodeId.slot loc.latitude loc.longitude loc.city).toList ++
    if (st.node nodeId).isSome then updates.payloads.map (.nodeUpdated nodeId.slot) else []

theorem replayMessages_congr {st st' : OrdinaryState} (shape : SameShape st st') :
    replayMessages st' = replayMessages st := by
  funext nodeId updates
  simp only [replayMessages, shape.held]

theorem replayPayloads_sameShape (nodeId : NodeId) :
    ∀ (payloads : List Payload) (st : OrdinaryState) (feed : FeedMessageSerializer),
      SameShape st (replayPayloads nodeId payloads (st, feed)).1
  | [], st, _ => .refl st
  | payload :: rest, _, feed =>
    (sameShape_updateNode nodeId payload feed).trans (replayPayloads_sameShape nodeId rest _ _)

/-- The state a payload loop leaves does not depend on the feed it writes to. -/
theorem replayPayloads_fst (nodeId : NodeId) :
    ∀ (payloads : List Payload) (acc : OrdinaryState × FeedMessageSerializer),
      (replayPayloads nodeId payloads acc).1 = (replayPayloads nodeId payloads (acc.1, [])).1
  | [], _ => rfl
  | payload :: rest, (st, feed) => by
    have first : (st.updateNode nodeId payload feed).1 = (st.updateNode nodeId payload []).1 := by
      unfold OrdinaryState.updateNode; split <;> rfl
    simp only [replayPayloads_cons]
    rw [replayPayloads_fst nodeId rest (st.updateNode nodeId payload feed), first,
      ← replayPayloads_fst nodeId rest (st.updateNode nodeId payload [])]

/-- The feed a payload loop leaves is the feed it starts from, plus one message per payload
when the node is held. -/
theorem replayPayloads_snd (nodeId : NodeId) :
    ∀ (payloads : List Payload) (acc : OrdinaryState × FeedMessageSerializer),
      (replayPayloads nodeId payloads acc).2 =
        acc.2 ++ if (acc.1.node nodeId).isSome then payloads.map (.nodeUpdated nodeId.slot) else []
  | [], acc => by simp [replayPayloads]
  | payload :: rest, (st, feed) => by
    simp only [replayPayloads_cons]
    rw [replayPayloads_snd nodeId rest, (sameShape_updateNode nodeId payload feed).held]
    cases held : st.node nodeId with
    | none => simp [updateNode_of_not_held held]
    | some node => simp [updateNode_of_node held]

/-- A payload loop folds its payloads into the node's record and touches no other node. -/
theorem node_replayPayloads (nodeId : NodeId) :
    ∀ (payloads : List Payload) (acc : OrdinaryState × FeedMessageSerializer) (other : NodeId),
      (replayPayloads nodeId payloads acc).1.node other =
        if other = nodeId then (acc.1.node nodeId).map (fun node => payloads.foldl Node.absorb node)
        else acc.1.node other
  | [], acc, other => by split <;> simp_all
  | payload :: rest, (st, feed), other => by
    simp only [replayPayloads_cons]
    rw [node_replayPayloads nodeId rest]
    cases held : st.node nodeId with
    | none => simp [updateNode_of_not_held held, held]
    | some node =>
      simp only [updateNode_of_node held, node_setNode (by simp [held] : (st.node nodeId).isSome)]
      split <;> simp [*]

/-- One node's replay, as a new state and the messages it appends. -/
theorem replayNodeUpdates_eq (acc : OrdinaryState × FeedMessageSerializer) (nodeId : NodeId)
    (updates : NodeUpdates) :
    replayNodeUpdates acc nodeId updates =
      ((replayNodeUpdates (acc.1, []) nodeId updates).1, acc.2 ++ replayMessages acc.1 nodeId updates) := by
  simp only [replayNodeUpdates_eq_replayPayloads]
  refine Prod.ext ?_ ?_
  · exact (replayPayloads_fst nodeId _ _).trans (replayPayloads_fst nodeId _ (acc.1, [] ++ _)).symm
  · rw [replayPayloads_snd]
    simp [replayMessages]

theorem replayNodeUpdates_sameShape (acc : OrdinaryState × FeedMessageSerializer) (nodeId : NodeId)
    (updates : NodeUpdates) : SameShape acc.1 (replayNodeUpdates acc nodeId updates).1 := by
  rw [replayNodeUpdates_eq_replayPayloads]
  exact replayPayloads_sameShape nodeId _ _ _

theorem node_replayNodeUpdates (acc : OrdinaryState × FeedMessageSerializer) (nodeId : NodeId)
    (updates : NodeUpdates) (other : NodeId) :
    (replayNodeUpdates acc nodeId updates).1.node other =
      if other = nodeId then (acc.1.node nodeId).map (fun node => updates.payloads.foldl Node.absorb node)
      else acc.1.node other := by
  rw [replayNodeUpdates_eq_replayPayloads, node_replayPayloads]

/-! ## Many nodes -/

/-- The underlying state after the stored updates of `entries` are replayed in order. -/
def replayState (st : OrdinaryState) (entries : List (Σ _ : NodeId, NodeUpdates)) : OrdinaryState :=
  entries.foldl (fun st entry => (replayNodeUpdates (st, []) entry.1 entry.2).1) st

/-- The stored payloads of `nodeId` among `entries`; none if it has no entry. -/
def pendingPayloads (entries : List (Σ _ : NodeId, NodeUpdates)) (nodeId : NodeId) : List Payload :=
  ((entries.dlookup nodeId).map NodeUpdates.payloads).getD []

theorem pendingPayloads_entries (updated : HashMap NodeId NodeUpdates) (nodeId : NodeId) :
    pendingPayloads updated.entries nodeId = ((updated.lookup nodeId).getD default).payloads := by
  unfold pendingPayloads
  change ((updated.lookup nodeId).map _).getD [] = _
  cases updated.lookup nodeId <;> rfl

theorem replayState_sameShape :
    ∀ (st : OrdinaryState) (entries : List (Σ _ : NodeId, NodeUpdates)), SameShape st (replayState st entries)
  | st, [] => .refl st
  | st, entry :: rest =>
    (replayNodeUpdates_sameShape (st, []) entry.1 entry.2).trans (replayState_sameShape _ rest)

/-- Replaying entries one after another: the state of `replayState`, and each entry's
messages as the starting state determines them. -/
theorem foldl_replayNodeUpdates :
    ∀ (entries : List (Σ _ : NodeId, NodeUpdates)) (st : OrdinaryState) (feed : FeedMessageSerializer),
      entries.foldl (fun acc entry => replayNodeUpdates acc entry.1 entry.2) (st, feed) =
        (replayState st entries, feed ++ entries.flatMap fun entry => replayMessages st entry.1 entry.2)
  | [], st, feed => by simp [replayState]
  | entry :: rest, st, feed => by
    have shape := replayNodeUpdates_sameShape (st, []) entry.1 entry.2
    rw [List.foldl_cons, replayNodeUpdates_eq, foldl_replayNodeUpdates rest, replayMessages_congr shape]
    simp [replayState]

/-- Each node's record after a replay: its stored payloads folded in, if it has an entry. -/
theorem node_replayState (nodeId : NodeId) :
    ∀ (st : OrdinaryState) (entries : List (Σ _ : NodeId, NodeUpdates)), entries.NodupKeys →
      (replayState st entries).node nodeId =
        (st.node nodeId).map (fun node => (pendingPayloads entries nodeId).foldl Node.absorb node)
  | st, [], _ => by simp [replayState, pendingPayloads]
  | st, ⟨key, updates⟩ :: rest, nodup => by
    rw [List.nodupKeys_cons] at nodup
    have later := node_replayState nodeId (replayNodeUpdates (st, []) key updates).1 rest nodup.2
    simp only [replayState, List.foldl_cons] at later ⊢
    rw [later, node_replayNodeUpdates]
    by_cases same : nodeId = key
    · subst same
      have absent : rest.dlookup nodeId = none := List.dlookup_eq_none.mpr nodup.1
      simp [pendingPayloads, absent]
      cases st.node nodeId <;> rfl
    · simp [pendingPayloads, same]

/-! ## Chunks and chains -/

theorem replayChunk_eq (st : OrdinaryState) (chunk : List (Σ _ : NodeId, NodeUpdates)) :
    replayChunk st chunk =
      (replayState st chunk, chunk.flatMap fun entry => replayMessages st entry.1 entry.2) := by
  simp [replayChunk, foldl_replayNodeUpdates]

theorem replayChunks_eq :
    ∀ (st : OrdinaryState) (parts : List (List (Σ _ : NodeId, NodeUpdates))),
      replayChunks st parts =
        (replayState st parts.flatten,
          parts.map fun chunk => chunk.flatMap fun entry => replayMessages st entry.1 entry.2)
  | st, [] => rfl
  | st, chunk :: rest => by
    have shape := replayState_sameShape st chunk
    simp only [replayChunks, replayChunk_eq, replayChunks_eq _ rest, replayMessages_congr shape,
      List.flatten_cons, List.map_cons]
    simp [replayState, List.foldl_append]

/-- Concatenating each part's flatMap is the flatMap of the concatenation. -/
theorem flatten_map_flatMap {α β : Type} (parts : List (List α)) (f : α → List β) :
    (parts.map fun part => part.flatMap f).flatten = parts.flatten.flatMap f := by
  induction parts <;> simp [*]

/-- The messages of one chain's chunks, concatenated: its removed nodes, its added nodes, then
each updated node's replay. -/
def chainUpdateMessages (st : OrdinaryState) (updates : ChainUpdates) : FeedMessageSerializer :=
  updates.removedNodes.elems.map (fun nodeId => .removedNode nodeId.slot) ++
    updates.addedNodes.entries.map (fun entry => .addedNode entry.1.slot entry.2) ++
    updates.updatedNodes.entries.flatMap fun entry => replayMessages st entry.1 entry.2

theorem chainUpdateChunks_fst (st : OrdinaryState) (updates : ChainUpdates) :
    (chainUpdateChunks st updates).1 = replayState st updates.updatedNodes.entries := by
  simp [chainUpdateChunks, replayChunks_eq]

theorem flatten_chainUpdateChunks (st : OrdinaryState) (updates : ChainUpdates) :
    (chainUpdateChunks st updates).2.flatten = chainUpdateMessages st updates := by
  simp only [chainUpdateChunks, replayChunks_eq, List.flatten_append, chainUpdateMessages,
    ← List.map_flatten, flatten_map_flatMap, flatten_chunks]

theorem chainUpdateChunks_congr {st st' : OrdinaryState} (shape : SameShape st st')
    (updates : ChainUpdates) : (chainUpdateChunks st' updates).2 = (chainUpdateChunks st updates).2 := by
  simp only [chainUpdateChunks, replayChunks_eq, replayMessages_congr shape]

/-- The underlying state after the updated nodes of `chains` are replayed, chain after chain. -/
def drainState (st : OrdinaryState) (chains : List (Σ _ : BlockHash, ChainUpdates)) : OrdinaryState :=
  chains.foldl (fun st entry => replayState st entry.2.updatedNodes.entries) st

/-- Draining chain after chain: each chain's chunks are those the starting state gives. -/
theorem drainChains_eq :
    ∀ (st : OrdinaryState) (chains : List (Σ _ : BlockHash, ChainUpdates)),
      drainChains st chains =
        (drainState st chains, chains.map fun entry => (entry.1, (chainUpdateChunks st entry.2).2))
  | st, [] => rfl
  | st, entry :: rest => by
    have shape := replayState_sameShape st entry.2.updatedNodes.entries
    simp only [drainChains, chainUpdateChunks_fst, drainChains_eq _ rest, chainUpdateChunks_congr shape,
      drainState, List.foldl_cons, List.map_cons]

theorem drainState_sameShape :
    ∀ (st : OrdinaryState) (chains : List (Σ _ : BlockHash, ChainUpdates)), SameShape st (drainState st chains)
  | st, [] => .refl st
  | st, entry :: rest =>
    (replayState_sameShape st entry.2.updatedNodes.entries).trans (drainState_sameShape _ rest)

/-- The payloads a drain over `chains` replays for `nodeId`: those stored in its chain's entry. -/
def drainedPayloads (chains : List (Σ _ : BlockHash, ChainUpdates)) (nodeId : NodeId) : List Payload :=
  ((chains.dlookup nodeId.chain).map fun updates => pendingPayloads updates.updatedNodes.entries nodeId).getD []

private theorem pendingPayloads_of_not_mem {updates : ChainUpdates} {nodeId : NodeId}
    (absent : nodeId ∉ updates.updatedNodes) : pendingPayloads updates.updatedNodes.entries nodeId = [] := by
  have : updates.updatedNodes.lookup nodeId = none := AList.lookup_eq_none.mpr absent
  simp only [pendingPayloads]
  rw [show updates.updatedNodes.entries.dlookup nodeId = updates.updatedNodes.lookup nodeId from rfl, this]
  rfl

/-- Each node's record after a drain over chains whose updated nodes are nodes of the chain:
the payloads stored in its own chain's entry are folded in. -/
theorem node_drainState (nodeId : NodeId) :
    ∀ (st : OrdinaryState) (chains : List (Σ _ : BlockHash, ChainUpdates)), chains.NodupKeys →
      (∀ entry ∈ chains, ∀ other ∈ entry.2.updatedNodes, other.chain = entry.1) →
      (drainState st chains).node nodeId =
        (st.node nodeId).map (fun node => (drainedPayloads chains nodeId).foldl Node.absorb node)
  | st, [], _, _ => by simp [drainState, drainedPayloads]
  | st, ⟨hash, updates⟩ :: rest, nodup, keyed => by
    rw [List.nodupKeys_cons] at nodup
    have later := node_drainState nodeId (replayState st updates.updatedNodes.entries) rest nodup.2
      (fun entry member => keyed entry (List.mem_cons_of_mem _ member))
    simp only [drainState, List.foldl_cons] at later ⊢
    rw [later, node_replayState nodeId st _ updates.updatedNodes.nodupKeys]
    by_cases same : nodeId.chain = hash
    · subst same
      have absent : rest.dlookup nodeId.chain = none := List.dlookup_eq_none.mpr nodup.1
      simp [drainedPayloads, absent]
      cases st.node nodeId <;> rfl
    · have absent : nodeId ∉ updates.updatedNodes := fun member =>
        same (keyed _ (List.mem_cons_self _ _) nodeId member)
      simp [drainedPayloads, same, pendingPayloads_of_not_mem absent]

theorem drainChainUpdates_snd (s : State) :
    s.drainChainUpdates.2 = (s.chains.entries.filter fun entry => entry.2.nodeCount ≠ 0).map
      fun entry => (entry.1, (chainUpdateChunks s.state entry.2).2) := by
  simp [drainChainUpdates, drainChains_eq]

theorem drainChainUpdates_state (s : State) :
    s.drainChainUpdates.1.state =
      drainState s.state (s.chains.entries.filter fun entry => entry.2.nodeCount ≠ 0) := by
  simp [drainChainUpdates, drainChains_eq]

end State

end TelemetryCore
