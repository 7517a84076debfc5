import TelemetryCore.Replay

namespace TelemetryCore

/-!
# The wrapper's bookkeeping

What every reachable state satisfies, whatever the callers do: each mapped node is held, and
each chain's entry holds deltas that fit the underlying state (`EntryOk`).  Each operation
preserves this (`Consistent`), so it holds along every run.

The invariant is deliberately weaker than "the wrapper mirrors the underlying state": the
whole-chain branch of `remove_nodes` drops a chain's entry without removing its nodes, after
which nodes are held that no entry counts and no pair reaches.
-/

open OrdinaryState

namespace State

/-- What the entry of chain `genesisHash` may hold, given the underlying state: added nodes are
held nodes of the chain; removed nodes are nodes of the chain no longer held; updated nodes are
nodes of the chain, and stored payloads are for held nodes; deltas are only kept when node data
is sent; and the count is unset or the chain's count.  When `located` holds (the callers locate
only held nodes), every updated node is held. -/
structure EntryOk (located : Prop) (st : OrdinaryState) (sendNodeData : Bool) (genesisHash : BlockHash)
    (updates : ChainUpdates) : Prop where
  added : ∀ nodeId ∈ updates.addedNodes,
    nodeId.chain = genesisHash ∧ (st.node nodeId).isSome ∧ sendNodeData = true
  removed : ∀ nodeId ∈ updates.removedNodes,
    nodeId.chain = genesisHash ∧ st.node nodeId = none ∧ sendNodeData = true
  updated : ∀ nodeId ∈ updates.updatedNodes, nodeId.chain = genesisHash ∧ sendNodeData = true
  payloads_held : ∀ nodeId pending, updates.updatedNodes.lookup nodeId = some pending →
    pending.payloads ≠ [] → (st.node nodeId).isSome
  count : updates.nodeCount = 0 ∨ updates.nodeCount = st.nodeCount genesisHash
  updated_held : located → ∀ nodeId ∈ updates.updatedNodes, (st.node nodeId).isSome

/-- The wrapper's bookkeeping fits the underlying state. -/
structure Consistent (located : Prop) (s : State) : Prop where
  mapped_held : ∀ nodeId pair, (nodeId, pair) ∈ s.nodeIds.pairs → (s.state.node nodeId).isSome
  entries : ∀ genesisHash updates, s.chains.lookup genesisHash = some updates →
    EntryOk located s.state s.sendNodeData genesisHash updates

namespace EntryOk

variable {located : Prop} {st st' : OrdinaryState} {sendNodeData : Bool} {genesisHash : BlockHash}
  {updates : ChainUpdates}

/-- An entry with no deltas and no count fits any state. -/
theorem of_empty (updates : ChainUpdates) (count : updates.nodeCount = 0)
    (added : updates.addedNodes = ∅) (removed : updates.removedNodes = ∅)
    (updated : updates.updatedNodes = ∅) : EntryOk located st sendNodeData genesisHash updates where
  added := by simp [added]
  removed := by simp [removed]
  updated := by simp [updated]
  payloads_held := by simp [updated]
  count := .inl count
  updated_held := by simp [updated]

theorem default : EntryOk located st sendNodeData genesisHash default :=
  of_empty _ rfl rfl rfl rfl

/-- Draining an entry's deltas keeps it fitting. -/
theorem drained (ok : EntryOk located st sendNodeData genesisHash updates) :
    EntryOk located st sendNodeData genesisHash updates.drained where
  added := by simp [ChainUpdates.drained]
  removed := by simp [ChainUpdates.drained]
  updated := by simp [ChainUpdates.drained]
  payloads_held := by simp [ChainUpdates.drained]
  count := ok.count
  updated_held := by simp [ChainUpdates.drained]

/-- An entry keeps fitting a state that holds the same nodes of its chain, with the same count. -/
theorem frame (ok : EntryOk located st sendNodeData genesisHash updates)
    (held : ∀ nodeId, nodeId.chain = genesisHash → (st'.node nodeId).isSome = (st.node nodeId).isSome)
    (count : st'.nodeCount genesisHash = st.nodeCount genesisHash) :
    EntryOk located st' sendNodeData genesisHash updates where
  added nodeId member := by
    obtain ⟨chain, isHeld, send⟩ := ok.added nodeId member
    exact ⟨chain, (held nodeId chain).trans isHeld, send⟩
  removed nodeId member := by
    obtain ⟨chain, gone, send⟩ := ok.removed nodeId member
    refine ⟨chain, Option.not_isSome_iff_eq_none.mp ?_, send⟩
    rw [held nodeId chain, gone]
    exact Bool.false_ne_true
  updated := ok.updated
  payloads_held nodeId pending found nonempty := by
    have chain := (ok.updated nodeId (AList.lookup_isSome.mp (by simp [found]))).1
    exact (held nodeId chain).trans (ok.payloads_held nodeId pending found nonempty)
  count := ok.count.imp id (fun same => same.trans count.symm)
  updated_held strict nodeId member :=
    (held nodeId (ok.updated nodeId member).1).trans (ok.updated_held strict nodeId member)

/-- Only an entry's deltas and count matter. -/
theorem congr (ok : EntryOk located st sendNodeData genesisHash updates) {updates' : ChainUpdates}
    (added : updates'.addedNodes = updates.addedNodes) (removed : updates'.removedNodes = updates.removedNodes)
    (updated : updates'.updatedNodes = updates.updatedNodes) (count : updates'.nodeCount = updates.nodeCount) :
    EntryOk located st sendNodeData genesisHash updates' where
  added := added ▸ ok.added
  removed := removed ▸ ok.removed
  updated := updated ▸ ok.updated
  payloads_held := updated ▸ ok.payloads_held
  count := count ▸ ok.count
  updated_held := updated ▸ ok.updated_held

theorem sameShape (ok : EntryOk located st sendNodeData genesisHash updates) (shape : SameShape st st') :
    EntryOk located st' sendNodeData genesisHash updates :=
  ok.frame (fun nodeId _ => shape.held nodeId) (shape.count genesisHash)

/-- What `add_node` records fits the state after the admission. -/
theorem recordAdded {details : NodeDetails} {added : NodeAddedToChain}
    (admits : Admits st genesisHash details added st') (ok : EntryOk located st sendNodeData genesisHash updates) :
    EntryOk located st' sendNodeData genesisHash (State.recordAdded sendNodeData added updates) := by
  have keeps : ∀ nodeId, (st.node nodeId).isSome → (st'.node nodeId).isSome := fun nodeId held => by
    by_cases same : nodeId = added.id
    · subst same; simp [admits.holds]
    · rwa [admits.frame nodeId same]
  refine ⟨?_, ?_, ?_, ?_, .inr (by simpa using admits.chainNodeCount_eq),
    fun strict nodeId member => keeps nodeId (ok.updated_held strict nodeId (by simpa using member))⟩
  · intro nodeId member
    rw [recordAdded_addedNodes] at member
    split at member
    · rename_i send
      simp only [AList.mem_insert] at member
      rcases member with rfl | member
      · exact ⟨admits.chain_eq, by simp [admits.holds], send⟩
      · obtain ⟨chain, held, _⟩ := ok.added nodeId member
        exact ⟨chain, keeps nodeId held, send⟩
    · obtain ⟨chain, held, send⟩ := ok.added nodeId member
      exact ⟨chain, keeps nodeId held, send⟩
  · intro nodeId member
    rw [recordAdded_removedNodes] at member
    split at member
    · rw [HashSet.mem_remove] at member
      obtain ⟨chain, gone, send⟩ := ok.removed nodeId member.2
      exact ⟨chain, by rw [admits.frame nodeId member.1, gone], send⟩
    · obtain ⟨chain, gone, send⟩ := ok.removed nodeId member
      rename_i quiet
      exact absurd send quiet
  · simpa using ok.updated
  · simpa using fun nodeId pending found nonempty =>
      keeps nodeId (ok.payloads_held nodeId pending found nonempty)

/-- Storing an update for a node of the chain keeps the entry fitting, when the node is held or
the update stores no payload, and the node is held if the callers promised it. -/
theorem updatePending {nodeId : NodeId} {f : NodeUpdates → NodeUpdates}
    (ok : EntryOk located st sendNodeData genesisHash updates) (chain : nodeId.chain = genesisHash)
    (send : sendNodeData = true)
    (keeps : (st.node nodeId).isSome ∨ ∀ pending, (f pending).payloads = pending.payloads)
    (promised : located → (st.node nodeId).isSome) :
    EntryOk located st sendNodeData genesisHash
      { updates with updatedNodes := updates.updatedNodes.entryOrDefault nodeId f } where
  added := ok.added
  removed := ok.removed
  updated other member := by
    simp only [HashMap.entryOrDefault, AList.mem_insert] at member
    rcases member with rfl | member
    · exact ⟨chain, send⟩
    · exact ok.updated other member
  payloads_held other pending found nonempty := by
    rw [HashMap.lookup_entryOrDefault_eq] at found
    split at found
    · subst other
      rcases keeps with held | same
      · exact held
      · simp only [Option.some.injEq] at found
        subst found
        rw [same] at nonempty
        cases lookup : updates.updatedNodes.lookup nodeId with
        | none => simp [lookup, NodeUpdates.payloads] at nonempty; contradiction
        | some old => exact ok.payloads_held nodeId old lookup (by simpa [lookup] using nonempty)
    · exact ok.payloads_held other pending found nonempty
  count := ok.count
  updated_held strict other member := by
    simp only [HashMap.entryOrDefault, AList.mem_insert] at member
    rcases member with rfl | member
    · exact promised strict
    · exact ok.updated_held strict other member

/-- What the loop of `remove_nodes` writes for a node the underlying state removed fits the
state after the removal. -/
theorem removeNode {nodeId : NodeId} {removed : RemovedNode}
    (removes : Removes st nodeId removed st') (chain : nodeId.chain = genesisHash)
    (ok : EntryOk located st sendNodeData genesisHash updates) :
    let counted := { updates with
      chainLabel := removed.newChainLabel
      nodeCount := removed.chainNodeCount }
    EntryOk located st' sendNodeData genesisHash
      (if sendNodeData then
        { counted with
          addedNodes := counted.addedNodes.erase nodeId
          updatedNodes := counted.updatedNodes.erase nodeId
          removedNodes := counted.removedNodes.insert nodeId }
      else counted) := by
  intro counted
  have count : removed.chainNodeCount = st'.nodeCount genesisHash := chain ▸ removes.chainNodeCount_eq
  have keeps : ∀ other, other ≠ nodeId → (st'.node other).isSome = (st.node other).isSome :=
    fun other different => by rw [removes.frame other different]
  split
  · rename_i send
    refine ⟨?_, ?_, ?_, ?_, .inr count, fun strict other member => ?_⟩
    · intro other member
      simp only [counted, AList.mem_erase] at member
      obtain ⟨chain, held, _⟩ := ok.added other member.2
      exact ⟨chain, (keeps other member.1).trans held, send⟩
    · intro other member
      by_cases same : other = nodeId
      · subst same; exact ⟨chain, removes.gone, send⟩
      · simp only [counted, HashSet.mem_insert, same, false_or] at member
        obtain ⟨chain, gone, _⟩ := ok.removed other member
        exact ⟨chain, by rw [removes.frame other same, gone], send⟩
    · intro other member
      simp only [counted, AList.mem_erase] at member
      exact ⟨(ok.updated other member.2).1, send⟩
    · intro other pending found nonempty
      simp only [counted] at found
      by_cases same : other = nodeId
      · subst same; simp at found
      · rw [AList.lookup_erase_ne same] at found
        exact (keeps other same).trans (ok.payloads_held other pending found nonempty)
    · simp only [counted, AList.mem_erase] at member
      exact (keeps other member.1).trans (ok.updated_held strict other member.2)
  · rename_i quiet
    refine ⟨fun other member => ?_, fun other member => ?_, fun other member => ?_,
      fun other pending found _ => ?_, .inr count, fun _ other member => ?_⟩
    · exact absurd (ok.added other member).2.2 quiet
    · exact absurd (ok.removed other member).2.2 quiet
    · exact absurd (ok.updated other member).2 quiet
    · exact absurd (ok.updated other (AList.lookup_isSome.mp (by simp [counted] at found; simp [found]))).2 quiet
    · exact absurd (ok.updated other member).2 quiet

/-- Added nodes are held nodes of the chain and removed nodes are nodes of the chain that are not
held, so no node is both. -/
theorem added_removed (ok : EntryOk located st sendNodeData genesisHash updates) :
    (∀ nodeId ∈ updates.addedNodes, nodeId.chain = genesisHash ∧ (st.node nodeId).isSome) ∧
      (∀ nodeId ∈ updates.removedNodes, nodeId.chain = genesisHash ∧ st.node nodeId = none) ∧
      ∀ nodeId ∈ updates.addedNodes, nodeId ∉ updates.removedNodes := by
  refine ⟨fun nodeId member => (ok.added nodeId member).imp_right (·.1),
    fun nodeId member => (ok.removed nodeId member).imp_right (·.1), fun nodeId added removed => ?_⟩
  have gone := (ok.removed nodeId removed).2.1
  have held := (ok.added nodeId added).2.1
  simp [gone] at held

end EntryOk

namespace Consistent

variable {located : Prop} {s : State}

theorem entryOk_getD (cons : Consistent located s) (genesisHash : BlockHash) :
    EntryOk located s.state s.sendNodeData genesisHash ((s.chains.lookup genesisHash).getD default) := by
  cases found : s.chains.lookup genesisHash with
  | none => exact EntryOk.default
  | some updates => exact cons.entries _ _ found

/-- Replacing the underlying state by one of the same shape keeps the bookkeeping consistent. -/
theorem sameShape (cons : Consistent located s) {st' : OrdinaryState} (shape : SameShape s.state st') :
    Consistent located { s with state := st' } where
  mapped_held nodeId pair member := (shape.held nodeId).trans (cons.mapped_held nodeId pair member)
  entries genesisHash updates found := (cons.entries genesisHash updates found).sameShape shape

/-- Dropping mappings keeps the bookkeeping consistent. -/
theorem unmap (cons : Consistent located s) {nodeIds : BiMap NodeId (ConnId × ShardNodeId)}
    (sub : ∀ pair ∈ nodeIds.pairs, pair ∈ s.nodeIds.pairs) : Consistent located { s with nodeIds } where
  mapped_held nodeId pair member := cons.mapped_held nodeId pair (sub _ member)
  entries := cons.entries

theorem updatePending (cons : Consistent located s) {nodeId : NodeId} {f : NodeUpdates → NodeUpdates}
    (send : s.sendNodeData = true)
    (keeps : (s.state.node nodeId).isSome ∨ ∀ pending, (f pending).payloads = pending.payloads)
    (promised : located → (s.state.node nodeId).isSome) :
    Consistent located (s.updatePending nodeId.chain nodeId f) where
  mapped_held := by simpa using cons.mapped_held
  entries genesisHash updates found := by
    rw [lookup_updatePending] at found
    split at found
    · subst genesisHash
      cases found
      simpa using (cons.entryOk_getD nodeId.chain).updatePending rfl send keeps promised
    · simpa using cons.entries genesisHash updates found

theorem addNode (cons : Consistent located s) (genesisHash : BlockHash) (shardConnId : ConnId)
    (localId : ShardNodeId) (details : NodeDetails) :
    Consistent located (s.addNode genesisHash shardConnId localId details).1 := by
  rcases addNode_cases genesisHash shardConnId localId details with
    ⟨_, result⟩ | ⟨added, st', admitted, result⟩
  · rw [result]; exact cons
  rw [result]
  have admits := addNode_admits admitted
  constructor
  · intro nodeId pair member
    simp only [BiMap.mem_insert, Prod.mk.injEq] at member
    rcases member with ⟨rfl, -⟩ | ⟨member, different, -⟩
    · simp [admits.holds]
    · rw [admits.frame nodeId different]; exact cons.mapped_held nodeId pair member
  · intro hash updates found
    rw [HashMap.lookup_entryOrDefault_eq] at found
    split at found
    · subst hash
      cases found
      exact (cons.entryOk_getD genesisHash).recordAdded admits
    · rename_i other
      refine (cons.entries hash updates found).frame (fun nodeId chain => ?_) (admits.count_frame hash other)
      have different : nodeId ≠ added.id := fun same => other (by rw [← chain, same, admits.chain_eq])
      rw [admits.frame nodeId different]

theorem updateNode (cons : Consistent located s) (shardConnId : ConnId) (localId : ShardNodeId) (payload : Payload) :
    Consistent located (s.updateNode shardConnId localId payload) := by
  rcases updateNode_cases shardConnId localId payload with same | ⟨nodeId, mapped, send, -, result⟩
  · rw [same]; exact cons
  · rw [result]
    have held := cons.mapped_held _ _ mapped
    exact cons.updatePending send (.inl held) (fun _ => held)

theorem updateNodeLocation (cons : Consistent located s) (nodeId : NodeId) (location : Location)
    (promised : located → (s.state.node nodeId).isSome) :
    Consistent located (s.updateNodeLocation nodeId location) := by
  have shape : SameShape s.state _ := sameShape_updateNodeLocation nodeId location
  rcases updateNodeLocation_cases nodeId location with same | ⟨loc, -, send, -, result⟩
  · rw [same]; exact cons.sameShape shape
  · rw [result]
    exact (cons.sameShape shape).updatePending send (.inr fun _ => rfl)
      (fun strict => (shape.held nodeId).trans (promised strict))

theorem drainUpdatesForAllFeeds (cons : Consistent located s) : Consistent located s.drainUpdatesForAllFeeds.1 where
  mapped_held := by simpa using cons.mapped_held
  entries hash updates found := by
    rw [lookup_drainUpdatesForAllFeeds, Option.map_eq_some'] at found
    obtain ⟨old, found, rfl⟩ := found
    rw [drainUpdatesForAllFeeds_state, drainUpdatesForAllFeeds_sendNodeData]
    exact (cons.entries hash old found).congr rfl rfl rfl rfl

theorem drainChainUpdates (cons : Consistent located s) : Consistent located s.drainChainUpdates.1 where
  mapped_held nodeId pair member := by
    rw [drainChainUpdates_state, (drainState_sameShape _ _).held]
    exact cons.mapped_held nodeId pair (by simpa using member)
  entries hash updates found := by
    rw [lookup_drainChainUpdates, Option.map_eq_some'] at found
    obtain ⟨old, found, rfl⟩ := found
    rw [drainChainUpdates_state, drainChainUpdates_sendNodeData]
    have ok := (cons.entries hash old found).sameShape
      (drainState_sameShape s.state (s.chains.entries.filter fun entry => entry.2.nodeCount ≠ 0))
    split
    · exact ok.drained
    · exact ok

theorem updateAddedNodesMessages (cons : Consistent located s) : Consistent located s.updateAddedNodesMessages :=
  ⟨by simpa using cons.mapped_held, by simpa using cons.entries⟩

/-- One pass of the loop of `remove_nodes` that removes a node from the underlying state. -/
private theorem removeStep {g : BlockHash} {updates : ChainUpdates} {nodeId : NodeId}
    {removed : RemovedNode} {st' : OrdinaryState} (removal : s.state.removeNode nodeId = (some removed, st'))
    (chain : nodeId.chain = g) (cons : Consistent located { s with chains := s.chains.insert g updates }) :
    let counted := { updates with
      chainLabel := removed.newChainLabel
      nodeCount := removed.chainNodeCount }
    Consistent located { s with
      nodeIds := s.nodeIds.removeByLeft nodeId
      state := st'
      chains := s.chains.insert g
        (if s.sendNodeData then
          { counted with
            addedNodes := counted.addedNodes.erase nodeId
            updatedNodes := counted.updatedNodes.erase nodeId
            removedNodes := counted.removedNodes.insert nodeId }
        else counted) } := by
  have removes := removeNode_removes removal
  constructor
  · intro other pair member
    rw [BiMap.mem_removeByLeft] at member
    rw [removes.frame other member.2]
    exact cons.mapped_held other pair member.1
  · intro hash entry found
    by_cases same : hash = g
    · subst hash
      simp only [AList.lookup_insert, Option.some.injEq] at found
      subst found
      exact (cons.entries g updates (by simp)).removeNode removes chain
    · rw [AList.lookup_insert_ne same] at found
      have ok := cons.entries hash entry (by simpa [AList.lookup_insert_ne same] using found)
      refine ok.frame (fun other inChain => ?_) (removes.count_frame hash (chain ▸ same))
      have different : other ≠ nodeId := fun equal => same (by rw [← inChain, equal, chain])
      rw [removes.frame other different]

/-- The loop of `remove_nodes` over nodes of one chain keeps the bookkeeping consistent, the
chain's entry being the one the loop carries. -/
theorem removeChainNodes {g : BlockHash} :
    ∀ (s : State) (updates : ChainUpdates) (nodeIds : List NodeId),
      (∀ nodeId ∈ nodeIds, nodeId.chain = g) →
      Consistent located { s with chains := s.chains.insert g updates } →
      Consistent located { (s.removeChainNodes updates nodeIds).1 with
        chains := s.chains.insert g (s.removeChainNodes updates nodeIds).2 }
  | _, _, [], _, cons => cons
  | s, updates, nodeId :: rest, chained, cons => by
    have later := fun s updates => removeChainNodes s updates rest
      (fun other member => chained other (List.mem_cons_of_mem _ member))
    unfold State.removeChainNodes
    dsimp only
    split
    · rename_i removed st' removal
      exact later _ _ (removeStep removal (chained nodeId (List.mem_cons_self _ _)) cons)
    · exact later _ _ (cons.unmap (by simp +contextual))

theorem removeChain (cons : Consistent located s) {g : BlockHash} {nodeIds : List NodeId}
    (chained : ∀ nodeId ∈ nodeIds, nodeId.chain = g) : Consistent located (s.removeChain g nodeIds) := by
  unfold State.removeChain
  split
  · exact cons
  rename_i updates found
  split
  · refine ⟨cons.mapped_held, fun hash entry lookup => ?_⟩
    by_cases same : hash = g
    · subst same; simp at lookup
    · exact cons.entries hash entry (by simpa [AList.lookup_erase_ne same] using lookup)
  · have start : Consistent located { s with chains := s.chains.insert g updates } := by
      refine ⟨cons.mapped_held, fun hash entry lookup => ?_⟩
      by_cases same : hash = g
      · subst same
        simp only [AList.lookup_insert, Option.some.injEq] at lookup
        exact lookup ▸ cons.entries _ _ found
      · exact cons.entries hash entry (by simpa [AList.lookup_insert_ne same] using lookup)
    have done := removeChainNodes s updates nodeIds chained start
    simpa using done

theorem removeNodes (cons : Consistent located s) (nodeIds : List NodeId) : Consistent located (s.removeNodes nodeIds) := by
  unfold State.removeNodes
  have chained := fun group (member : group ∈ (groupByChain s.state nodeIds).entries) =>
    chain_of_mem_groupByChain member
  generalize (groupByChain s.state nodeIds).entries = groups at chained
  induction groups generalizing s with
  | nil => exact cons
  | cons group rest later =>
    exact later (cons.removeChain (chained group (List.mem_cons_self _ _)))
      (fun other member => chained other (List.mem_cons_of_mem _ member))

theorem removeNode (cons : Consistent located s) (shardConnId : ConnId) (localId : ShardNodeId) :
    Consistent located (s.removeNode shardConnId localId) := by
  rcases removeNode_cases (s := s) shardConnId localId with ⟨-, same⟩ | ⟨_, -, result⟩
  · rw [same]; exact cons
  · rw [result]
    exact (cons.unmap fun _ member => (BiMap.mem_removeByRight.mp member).1).removeNodes _

theorem step (cons : Consistent located s) :
    ∀ op : Op, (located → LocatesHeld s op) → Consistent located (s.step op).1
  | .addNode genesisHash shardConnId localId node, _ => cons.addNode genesisHash shardConnId localId node
  | .updateNode shardConnId localId payload, _ => cons.updateNode shardConnId localId payload
  | .removeNode shardConnId localId, _ => cons.removeNode shardConnId localId
  | .disconnectNode _, _ => cons.removeNodes _
  | .updateNodeLocation nodeId location, promised => cons.updateNodeLocation nodeId location promised
  | .drainUpdatesForAllFeeds, _ => cons.drainUpdatesForAllFeeds
  | .drainChainUpdates, _ => cons.drainChainUpdates
  | .updateAddedNodesMessages, _ => cons.updateAddedNodesMessages

end Consistent

/-- `State::new` starts consistent: no mappings, and entries that only carry a loaded count. -/
theorem consistent_new {denylist : List String} {maxThirdPartyNodes : Nat}
    {firstPartyNetworks : List BlockHash} {sendNodeData : Bool} {metadataPath : Option String}
    {stored : Option (Except String Metadata)} {s : State}
    (created : State.new denylist maxThirdPartyNodes firstPartyNetworks sendNodeData metadataPath stored =
      .ok s) (located : Prop) : Consistent located s := by
  obtain ⟨metadata, rfl⟩ := new_ok created
  refine ⟨fun _ _ member => absurd member (List.not_mem_nil _), fun hash updates found => ?_⟩
  rw [HashMap.lookup_mapValues, Option.map_eq_some'] at found
  obtain ⟨_, _, rfl⟩ := found
  exact EntryOk.of_empty _ rfl rfl rfl rfl

end State

/-- Every reachable state is consistent, whatever the callers are allowed to do; and if they
only locate held nodes, every node with stored updates is held. -/
theorem Reachable.consistent {allowed : State → Op → Prop} {run : Run} (reach : Reachable allowed run) :
    State.Consistent (∀ s op, allowed s op → LocatesHeld s op) run.state := by
  induction reach with
  | start _ _ _ _ _ _ started =>
    simp only [Run.start] at started
    split at started
    · cases started; exact State.consistent_new ‹_› _
    · cases started
  | step _ permitted earlier => exact earlier.step _ fun promise => promise _ _ permitted

/-! ## Along every run -/

/-- Every node the identity map reaches is held by the underlying state. -/
theorem held_of_mapped {allowed : State → Op → Prop} {run : Run} (reach : Reachable allowed run)
    {nodeId : NodeId} {pair : ConnId × ShardNodeId} (mapped : (nodeId, pair) ∈ run.state.nodeIds.pairs) :
    (run.state.state.node nodeId).isSome :=
  reach.consistent.mapped_held nodeId pair mapped

theorem held_of_mapped_admitted :
    let run := (Run.fresh [] 10 [] true).steps [.addNode 7 1 1 ⟨"A", "x"⟩]
    (⟨7, 0⟩, (1, 1)) ∈ run.state.nodeIds.pairs ∧ (run.state.state.node ⟨7, 0⟩).isSome :=
  have mapped : (⟨7, 0⟩, (1, 1)) ∈
      ((Run.fresh [] 10 [] true).steps [.addNode 7 1 1 ⟨"A", "x"⟩]).state.nodeIds.pairs := by decide
  ⟨mapped, held_of_mapped (Reachable.steps _ (Reachable.fresh [] 10 [] true : Reachable FreshPairs _)
    (by decide)) mapped⟩

/-- Removing the only node of a chain takes the whole-chain branch of `remove_nodes`, which
leaves the node held although no pair maps to it any more. -/
theorem removeNode_last_node_stays_held :
    ∃ run, run = (Run.fresh [] 10 [] true).steps [.addNode 7 1 1 ⟨"A", "x"⟩, .removeNode 1 1] ∧
      Reachable FreshPairs run ∧ (run.state.state.node ⟨7, 0⟩).isSome ∧ run.state.nodeIds.pairs = [] :=
  ⟨_, rfl, .steps _ (.fresh [] 10 [] true) (by decide), by decide⟩

/-- Every chain entry's count is either unset or the number of nodes its chain holds. -/
theorem entry_nodeCount {allowed : State → Op → Prop} {run : Run} (reach : Reachable allowed run)
    {genesisHash : BlockHash} {updates : ChainUpdates}
    (found : run.state.chains.lookup genesisHash = some updates) :
    updates.nodeCount = 0 ∨ updates.nodeCount = run.state.state.nodeCount genesisHash :=
  (reach.consistent.entries genesisHash updates found).count

theorem entry_nodeCount_admitted :
    let run := (Run.fresh [] 10 [] true).steps [.addNode 7 1 1 ⟨"A", "x"⟩]
    ∃ updates, run.state.chains.lookup 7 = some updates ∧
      (updates.nodeCount = 0 ∨ updates.nodeCount = run.state.state.nodeCount 7) :=
  ⟨_, rfl, entry_nodeCount (Reachable.steps _ (Reachable.fresh [] 10 [] true : Reachable FreshPairs _) (by decide)) rfl⟩

/-- After the same run the underlying state holds a node of chain 7, yet 7 has no entry and is
reported removed. -/
theorem removeNode_last_node_drops_entry :
    ∃ run, run = (Run.fresh [] 10 [] true).steps [.addNode 7 1 1 ⟨"A", "x"⟩, .removeNode 1 1] ∧
      Reachable (fun _ _ => True) run ∧ 7 ∉ run.state.chains ∧ run.state.state.nodeCount 7 = 1 ∧
      7 ∈ run.state.removedChains :=
  ⟨_, rfl, .steps _ (.fresh [] 10 [] true) (by decide), by decide⟩

/-- In every reachable state each entry's added nodes are held nodes of its chain and its removed
nodes are nodes of its chain that are not held, so no node is both. -/
theorem entry_added_removed {allowed : State → Op → Prop} {run : Run} (reach : Reachable allowed run)
    {genesisHash : BlockHash} {updates : ChainUpdates}
    (found : run.state.chains.lookup genesisHash = some updates) :
    (∀ nodeId ∈ updates.addedNodes, nodeId.chain = genesisHash ∧ (run.state.state.node nodeId).isSome) ∧
      (∀ nodeId ∈ updates.removedNodes, nodeId.chain = genesisHash ∧ run.state.state.node nodeId = none) ∧
      ∀ nodeId ∈ updates.addedNodes, nodeId ∉ updates.removedNodes :=
  (reach.consistent.entries genesisHash updates found).added_removed

theorem entry_added_removed_admitted :
    let run := (Run.fresh [] 10 [] true).steps [.addNode 7 1 1 ⟨"A", "x"⟩]
    ∃ updates, run.state.chains.lookup 7 = some updates ∧
      (∀ nodeId ∈ updates.addedNodes, nodeId.chain = 7 ∧ (run.state.state.node nodeId).isSome) ∧
      (∀ nodeId ∈ updates.removedNodes, nodeId.chain = 7 ∧ run.state.state.node nodeId = none) ∧
      ∀ nodeId ∈ updates.addedNodes, nodeId ∉ updates.removedNodes :=
  ⟨_, rfl, entry_added_removed (Reachable.steps _ (Reachable.fresh [] 10 [] true : Reachable FreshPairs _) (by decide))
    rfl⟩

/-- When `update_node_location` is only given held nodes, the deltas are exactly as they should
be: added and updated nodes are held nodes of the chain, removed nodes are nodes of the chain
that are not held, and no removed node is also added or updated. -/
theorem entry_deltas_of_locatesHeld {allowed : State → Op → Prop} {run : Run}
    (reach : Reachable allowed run) (promise : ∀ s op, allowed s op → LocatesHeld s op)
    {genesisHash : BlockHash} {updates : ChainUpdates}
    (found : run.state.chains.lookup genesisHash = some updates) :
    (∀ nodeId ∈ updates.addedNodes, nodeId.chain = genesisHash ∧ (run.state.state.node nodeId).isSome) ∧
      (∀ nodeId ∈ updates.updatedNodes, nodeId.chain = genesisHash ∧ (run.state.state.node nodeId).isSome) ∧
      (∀ nodeId ∈ updates.removedNodes, nodeId.chain = genesisHash ∧ run.state.state.node nodeId = none) ∧
      ∀ nodeId ∈ updates.removedNodes, nodeId ∉ updates.addedNodes ∧ nodeId ∉ updates.updatedNodes := by
  have ok := reach.consistent.entries genesisHash updates found
  have updatedHeld := ok.updated_held promise
  obtain ⟨added, removed, disjoint⟩ := ok.added_removed
  refine ⟨added, fun nodeId member => ⟨(ok.updated nodeId member).1, updatedHeld nodeId member⟩, removed,
    fun nodeId member => ⟨fun inAdded => disjoint nodeId inAdded member, fun inUpdated => ?_⟩⟩
  have held := updatedHeld nodeId inUpdated
  simp [(removed nodeId member).2] at held

theorem entry_deltas_of_locatesHeld_located :
    let run := (Run.fresh [] 10 [] true).steps
      [.addNode 7 1 1 ⟨"A", "x"⟩, .updateNodeLocation ⟨7, 0⟩ (some ⟨1, 2, "L"⟩)]
    ∃ updates, run.state.chains.lookup 7 = some updates ∧
      (∀ nodeId ∈ updates.addedNodes, nodeId.chain = 7 ∧ (run.state.state.node nodeId).isSome) ∧
      (∀ nodeId ∈ updates.updatedNodes, nodeId.chain = 7 ∧ (run.state.state.node nodeId).isSome) ∧
      (∀ nodeId ∈ updates.removedNodes, nodeId.chain = 7 ∧ run.state.state.node nodeId = none) ∧
      ∀ nodeId ∈ updates.removedNodes, nodeId ∉ updates.addedNodes ∧ nodeId ∉ updates.updatedNodes :=
  ⟨_, rfl, entry_deltas_of_locatesHeld
    (Reachable.steps _ (Reachable.fresh [] 10 [] true : Reachable LocatesHeld _) (by decide)) (fun _ _ => id) rfl⟩

/-- A location given to a freed slot of a known chain is stored for that slot, next to its
removal, and the next drain emits it after the removal. -/
theorem updateNodeLocation_freed_slot :
    ∃ run, run = (Run.fresh [] 10 [] true).steps
        [.addNode 7 1 1 ⟨"A", "a"⟩, .addNode 7 1 2 ⟨"A", "b"⟩, .removeNode 1 2,
          .updateNodeLocation ⟨7, 1⟩ (some ⟨1, 2, "L"⟩)] ∧
      Reachable (fun _ _ => True) run ∧
      (∃ updates, run.state.chains.lookup 7 = some updates ∧ ⟨7, 1⟩ ∈ updates.removedNodes ∧
        ⟨7, 1⟩ ∈ updates.updatedNodes ∧ run.state.state.node ⟨7, 1⟩ = none) ∧
      run.state.drain.2.2.flatMap (·.2.flatten) =
        [.removedNode 1, .addedNode 0 (Node.new ⟨"A", "a"⟩), .locatedNode 1 1 2 "L"] :=
  ⟨_, rfl, .steps _ (.fresh [] 10 [] true) (by decide), ⟨_, rfl, by decide, by decide, by decide⟩,
    by decide⟩

/-- The location a freed slot was given passes to the node admitted to the slot next: `add_node`
takes the slot out of the removed nodes but leaves what was stored for it, so the next drain
announces the new node and then locates it, although no location was given while it was live
and the underlying state holds it with none. -/
theorem updateNodeLocation_locates_next_holder :
    ∃ run, run = (Run.fresh [] 10 [] true).steps
        [.addNode 7 1 1 ⟨"A", "a"⟩, .addNode 7 1 2 ⟨"A", "b"⟩, .drainUpdatesForAllFeeds, .drainChainUpdates,
          .removeNode 1 2, .updateNodeLocation ⟨7, 1⟩ (some ⟨1, 2, "L"⟩), .addNode 7 1 3 ⟨"A", "x"⟩] ∧
      Reachable FreshPairs run ∧
      (⟨⟨7, 1⟩, (1, 3), ⟨"A", "x"⟩, [], []⟩ : LiveNode) ∈ run.live ∧
      (run.state.state.node ⟨7, 1⟩).map Node.location = some none ∧
      run.state.drain.2.2.flatMap (·.2.flatten) =
        [.addedNode 1 (Node.new ⟨"A", "x"⟩), .locatedNode 1 1 2 "L"] :=
  ⟨_, rfl, .steps _ (.fresh [] 10 [] true) (by decide), by decide, by decide, by decide⟩

end TelemetryCore
