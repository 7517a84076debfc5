import TelemetryCore.Drain

namespace TelemetryCore

/-!
# Nodes removed before a drain

Once a node is removed, the wrapper holds no added record and no stored updates for it, and
no pair reaches it except, after `disconnect_node`, pairs of the disconnected connection: the
whole-chain branch of `remove_nodes` leaves those mapped (`Gone`).  Until the next drain
nothing gives the node either back, unless its id is admitted again, it is given a location,
or its connection delivers again.  So the next drain says nothing of the node's slot but,
possibly, one `RemovedNode`.
-/

/-- Whether a feed message names the node in slot `slot` of its chain. -/
def FeedMessage.names (slot : Nat) : FeedMessage → Bool
  | .removedNode id | .addedNode id _ | .locatedNode id .. | .finalizedBlock id .. | .staleNode id
  | .nodeUpdated id _ => id == slot
  | .removedChain _ | .addedChain .. => false

/-- Whether an operation's result is the admission of `nodeId`. -/
def Output.admits (nodeId : NodeId) : Output → Bool
  | .added (.ok id) => id == nodeId
  | _ => false

/-- The pairs a node may still be mapped from after `removal` took it away: none after
`remove_node`; after `disconnect_node`, those of the disconnected connection. -/
def Op.staleAfter : Op → ConnId × ShardNodeId → Bool
  | .disconnectNode shardConnId => fun pair => pair.1 == shardConnId
  | _ => fun _ => false

/-- Whether an operation keeps away from a removed node: it delivers nothing from a pair the
node may still be mapped from, and gives the node no location. -/
def Op.avoids (stale : ConnId × ShardNodeId → Bool) (nodeId : NodeId) : Op → Bool
  | .updateNode shardConnId localId _ => !stale (shardConnId, localId)
  | .updateNodeLocation other _ => other != nodeId
  | _ => true

private theorem lookup_erase_of_none {β : Type} {m : HashMap NodeId β} {key : NodeId} (other : NodeId)
    (absent : m.lookup key = none) : (m.erase other).lookup key = none := by
  by_cases same : key = other
  · subst same
    exact AList.lookup_erase _ _
  · rw [AList.lookup_erase_ne same]
    exact absent

private theorem sublist_singleton_of_nodup {α : Type} {items : List α} {item : α} (nodup : items.Nodup)
    (only : ∀ other ∈ items, other = item) : items.Sublist [item] := by
  match items, nodup, only with
  | [], _, _ => exact List.nil_sublist _
  | [other], _, only => rw [only other (List.mem_singleton_self _)]
  | first :: second :: _, nodup, only =>
    have same := (only first (List.mem_cons_self _ _)).trans
      (only second (List.mem_cons_of_mem _ (List.mem_cons_self _ _))).symm
    exact absurd (same ▸ List.mem_cons_self _ _) (List.nodup_cons.mp nodup).1

namespace State

open OrdinaryState

variable {s : State} {nodeId : NodeId}

theorem EntryOk.mono {located located' : Prop} {st : OrdinaryState} {sendNodeData : Bool}
    {genesisHash : BlockHash} {updates : ChainUpdates} (ok : EntryOk located st sendNodeData genesisHash updates)
    (weaker : located' → located) : EntryOk located' st sendNodeData genesisHash updates :=
  { ok with updated_held := fun strict => ok.updated_held (weaker strict) }

theorem Consistent.mono {located located' : Prop} (cons : Consistent located s) (weaker : located' → located) :
    Consistent located' s :=
  ⟨cons.mapped_held, fun genesisHash updates found => (cons.entries genesisHash updates found).mono weaker⟩

/-- What the wrapper holds of a removed node: no added record, no stored updates, and no
mapping but from `stale` pairs. -/
structure Gone (stale : ConnId × ShardNodeId → Bool) (s : State) (nodeId : NodeId) : Prop where
  added : s.pendingAdded nodeId = none
  updated : s.pendingUpdates nodeId = none
  unmapped : ∀ pair, (nodeId, pair) ∈ s.nodeIds.pairs → stale pair = true

/-- A change that creates no added record or stored updates for a removed node and maps it
from no new pair keeps it gone. -/
theorem Gone.of_none {stale : ConnId × ShardNodeId → Bool} {s' : State} (gone : Gone stale s nodeId)
    (added : s.pendingAdded nodeId = none → s'.pendingAdded nodeId = none)
    (updated : s.pendingUpdates nodeId = none → s'.pendingUpdates nodeId = none)
    (pairs : ∀ pair, (nodeId, pair) ∈ s'.nodeIds.pairs → (nodeId, pair) ∈ s.nodeIds.pairs) :
    Gone stale s' nodeId :=
  ⟨added gone.added, updated gone.updated, fun pair member => gone.unmapped pair (pairs pair member)⟩

/-- Dropping mappings keeps a removed node gone. -/
theorem Gone.unmap {stale : ConnId × ShardNodeId → Bool} (gone : Gone stale s nodeId)
    {nodeIds : BiMap NodeId (ConnId × ShardNodeId)} (sub : ∀ pair ∈ nodeIds.pairs, pair ∈ s.nodeIds.pairs) :
    Gone stale { s with nodeIds } nodeId :=
  ⟨gone.added, gone.updated, fun pair member => gone.unmapped pair (sub _ member)⟩

/-- A change of the underlying state alone keeps a removed node gone. -/
theorem Gone.setState {stale : ConnId × ShardNodeId → Bool} (gone : Gone stale s nodeId) (st : OrdinaryState) :
    Gone stale { s with state := st } nodeId :=
  ⟨gone.added, gone.updated, gone.unmapped⟩

/-! ## Removal only drops -/

/-- The loop of `remove_nodes` only drops added records and stored updates. -/
theorem removeChainNodes_none (nodeId : NodeId) :
    ∀ (s : State) (updates : ChainUpdates) (nodeIds : List NodeId),
      (updates.addedNodes.lookup nodeId = none →
        (s.removeChainNodes updates nodeIds).2.addedNodes.lookup nodeId = none) ∧
      (updates.updatedNodes.lookup nodeId = none →
        (s.removeChainNodes updates nodeIds).2.updatedNodes.lookup nodeId = none)
  | _, _, [] => ⟨id, id⟩
  | s, updates, target :: rest => by
    unfold removeChainNodes
    dsimp only
    split
    · exact ⟨fun absent => (removeChainNodes_none nodeId _ _ rest).1 (by split <;> simp [lookup_erase_of_none, absent]),
        fun absent => (removeChainNodes_none nodeId _ _ rest).2 (by split <;> simp [lookup_erase_of_none, absent])⟩
    · exact removeChainNodes_none nodeId _ _ rest

theorem removeChainNodes_pairs :
    ∀ (s : State) (updates : ChainUpdates) (nodeIds : List NodeId),
      ∀ pair ∈ (s.removeChainNodes updates nodeIds).1.nodeIds.pairs, pair ∈ s.nodeIds.pairs
  | _, _, [] => fun _ member => member
  | s, updates, target :: rest => by
    unfold removeChainNodes
    dsimp only
    split <;>
      exact fun pair member => (BiMap.mem_removeByLeft.mp (removeChainNodes_pairs _ _ rest pair member)).1

theorem removeChain_none {g : BlockHash} {nodeIds : List NodeId} :
    (s.pendingAdded nodeId = none → (s.removeChain g nodeIds).pendingAdded nodeId = none) ∧
    (s.pendingUpdates nodeId = none → (s.removeChain g nodeIds).pendingUpdates nodeId = none) := by
  unfold removeChain
  split
  · exact ⟨id, id⟩
  rename_i updates found
  split
  · by_cases same : nodeId.chain = g
    · subst same
      simp [pendingAdded, pendingUpdates]
    · simp [pendingAdded, pendingUpdates, AList.lookup_erase_ne same]
  · have loop := removeChainNodes_none nodeId s updates nodeIds
    by_cases same : nodeId.chain = g
    · subst same
      simpa [pendingAdded, pendingUpdates, found] using loop
    · simp [pendingAdded, pendingUpdates, AList.lookup_insert_ne same]

theorem removeChain_pairs {g : BlockHash} {nodeIds : List NodeId} :
    ∀ pair ∈ (s.removeChain g nodeIds).nodeIds.pairs, pair ∈ s.nodeIds.pairs := by
  unfold removeChain
  split
  · exact fun _ member => member
  split
  · exact fun _ member => member
  · exact removeChainNodes_pairs _ _ _

theorem removeNodes_none (targets : List NodeId) :
    (s.pendingAdded nodeId = none → (s.removeNodes targets).pendingAdded nodeId = none) ∧
    (s.pendingUpdates nodeId = none → (s.removeNodes targets).pendingUpdates nodeId = none) := by
  unfold removeNodes
  generalize (groupByChain s.state targets).entries = groups
  induction groups generalizing s with
  | nil => exact ⟨id, id⟩
  | cons group rest later =>
    exact ⟨fun absent => (later (s := s.removeChain group.1 group.2)).1 (removeChain_none.1 absent),
      fun absent => (later (s := s.removeChain group.1 group.2)).2 (removeChain_none.2 absent)⟩

theorem removeNodes_pairs (targets : List NodeId) :
    ∀ pair ∈ (s.removeNodes targets).nodeIds.pairs, pair ∈ s.nodeIds.pairs := by
  unfold removeNodes
  generalize (groupByChain s.state targets).entries = groups
  induction groups generalizing s with
  | nil => exact fun _ member => member
  | cons group rest later => exact fun pair member => removeChain_pairs pair (later pair member)

/-- `remove_nodes` keeps a removed node gone. -/
theorem Gone.removeNodes {stale : ConnId × ShardNodeId → Bool} (gone : Gone stale s nodeId)
    (targets : List NodeId) : Gone stale (s.removeNodes targets) nodeId :=
  gone.of_none (removeNodes_none targets).1 (removeNodes_none targets).2 fun _ member => removeNodes_pairs _ _ member

/-! ## Removal clears -/

/-- The loop of `remove_nodes` drops the added record and stored updates of a held node it is
given, when node data is sent or the carried entry holds none for it. -/
theorem removeChainNodes_clears :
    ∀ (s : State) (updates : ChainUpdates) (nodeIds : List NodeId), nodeId ∈ nodeIds →
      (s.state.node nodeId).isSome →
      (s.sendNodeData = false →
        updates.addedNodes.lookup nodeId = none ∧ updates.updatedNodes.lookup nodeId = none) →
      (s.removeChainNodes updates nodeIds).2.addedNodes.lookup nodeId = none ∧
        (s.removeChainNodes updates nodeIds).2.updatedNodes.lookup nodeId = none
  | _, _, [], member, _, _ => absurd member (List.not_mem_nil _)
  | s, updates, target :: rest, member, held, clean => by
    unfold removeChainNodes
    dsimp only
    split
    · rename_i removed st' removal
      have removes := removeNode_removes removal
      by_cases same : target = nodeId
      · subst same
        have after := removeChainNodes_none target
        cases send : s.sendNodeData <;> simp only [send, Bool.false_eq_true, if_true, if_false]
        · exact ⟨(after _ _ rest).1 (clean send).1, (after _ _ rest).2 (clean send).2⟩
        · exact ⟨(after _ _ rest).1 (AList.lookup_erase _ _), (after _ _ rest).2 (AList.lookup_erase _ _)⟩
      · have later := (List.mem_cons.mp member).resolve_left (Ne.symm same)
        refine removeChainNodes_clears _ _ rest later (by rw [removes.frame nodeId (Ne.symm same)]; exact held)
          fun quiet => ?_
        simp only at quiet
        simp only [quiet, Bool.false_eq_true, if_false]
        exact clean quiet
    · rename_i unheld
      have different : target ≠ nodeId := fun same => by
        have found : (s.state.removeNode target).1.isSome = (s.state.node target).isSome :=
          removeNode_fst_isSome target
        rw [unheld, same, held] at found
        cases found
      exact removeChainNodes_clears _ _ rest ((List.mem_cons.mp member).resolve_left (Ne.symm different))
        held clean

theorem removeChain_clears {located : Prop} (cons : Consistent located s) {nodeIds : List NodeId}
    (member : nodeId ∈ nodeIds) (held : (s.state.node nodeId).isSome) :
    (s.removeChain nodeId.chain nodeIds).pendingAdded nodeId = none ∧
      (s.removeChain nodeId.chain nodeIds).pendingUpdates nodeId = none := by
  unfold removeChain
  split
  · rename_i absent
    simp [pendingAdded, pendingUpdates, absent]
  rename_i updates found
  split
  · simp [pendingAdded, pendingUpdates]
  · have ok := cons.entries _ _ found
    have cleared := removeChainNodes_clears s updates nodeIds member held fun quiet =>
      ⟨AList.lookup_eq_none.mpr fun inAdded => by simpa [quiet] using (ok.added nodeId inAdded).2.2,
        AList.lookup_eq_none.mpr fun inUpdated => by simpa [quiet] using (ok.updated nodeId inUpdated).2⟩
    simpa [pendingAdded, pendingUpdates] using cleared

/-- `remove_nodes` drops the added record and stored updates of every held node it is given. -/
theorem removeNodes_clears {located : Prop} (cons : Consistent located s) {targets : List NodeId}
    (member : nodeId ∈ targets) (held : (s.state.node nodeId).isSome) :
    (s.removeNodes targets).pendingAdded nodeId = none ∧ (s.removeNodes targets).pendingUpdates nodeId = none := by
  have filed : chainOf s.state nodeId = some nodeId.chain := by
    simp [chainOf, getChainByNodeId_eq, mem_chains_of_node held]
  have grouped : nodeId.chain ∈ groupByChain s.state targets := groupByChain_mem.mpr ⟨nodeId, member, filed⟩
  have inGroup : ∀ group ∈ (groupByChain s.state targets).entries, group.1 = nodeId.chain → nodeId ∈ group.2 :=
    fun group inGroups same => by
      rw [groupByChain_lookup (AList.mem_lookup_iff.mpr inGroups), List.mem_filter]
      exact ⟨member, by simp [same, filed]⟩
  have chained := fun group (inGroups : group ∈ (groupByChain s.state targets).entries) =>
    chain_of_mem_groupByChain inGroups
  unfold removeNodes
  -- Along the fold the node is either held and its chain's group still to come, or cleared.
  have state : (nodeId.chain ∈ (groupByChain s.state targets).entries.keys ∧ (s.state.node nodeId).isSome) ∨
      (s.pendingAdded nodeId = none ∧ s.pendingUpdates nodeId = none) := .inl ⟨AList.mem_keys.mpr grouped, held⟩
  generalize (groupByChain s.state targets).entries = groups at inGroup chained state
  clear filed grouped held
  induction groups generalizing s with
  | nil =>
    rcases state with ⟨absurdKey, -⟩ | cleared
    · exact absurd absurdKey (List.not_mem_nil _)
    · exact cleared
  | cons group rest later =>
    have chainedHere := chained group (List.mem_cons_self _ _)
    refine later (cons.removeChain chainedHere) (fun other inRest => inGroup other (List.mem_cons_of_mem _ inRest))
      (fun other inRest => chained other (List.mem_cons_of_mem _ inRest)) ?_
    rcases state with ⟨inKeys, stillHeld⟩ | ⟨addedNone, updatedNone⟩
    · by_cases same : group.1 = nodeId.chain
      · right
        have := removeChain_clears cons (inGroup group (List.mem_cons_self _ _) same) stillHeld
        rwa [← same] at this
      · left
        refine ⟨by simpa [List.keys, Ne.symm same] using inKeys, ?_⟩
        rw [(removeChain_frame chainedHere).2.1 nodeId fun inGroupHere => same (chainedHere nodeId inGroupHere ▸ rfl)]
        exact stillHeld
    · exact .inr ⟨removeChain_none.1 addedNone, removeChain_none.2 updatedNone⟩

/-! ## After the removal -/

/-- `remove_node` leaves the node its pair mapped to gone, mapped from no pair. -/
theorem gone_removeNode {located : Prop} (cons : Consistent located s) {shardConnId : ConnId}
    {localId : ShardNodeId} (mapped : (nodeId, (shardConnId, localId)) ∈ s.nodeIds.pairs) :
    Gone (Op.removeNode shardConnId localId).staleAfter (s.removeNode shardConnId localId) nodeId := by
  rcases removeNode_cases (s := s) shardConnId localId with ⟨unmapped, -⟩ | ⟨target, targetMapped, result⟩
  · exact absurd mapped (unmapped nodeId)
  obtain rfl : target = nodeId := BiMap.left_unique targetMapped mapped
  have sub := fun entry (member : entry ∈ (s.nodeIds.removeByRight (shardConnId, localId)).2.pairs) =>
    BiMap.mem_removeByRight.mp member
  have cleared := removeNodes_clears (cons.unmap fun entry member => (sub entry member).1)
    (List.mem_singleton_self target) (cons.mapped_held _ _ mapped)
  rw [result]
  refine ⟨cleared.1, cleared.2, fun other member => ?_⟩
  have inRest := sub _ (removeNodes_pairs [target] _ member)
  exact absurd (BiMap.right_unique mapped inRest.1).symm inRest.2

/-- `disconnect_node` leaves each node of the connection gone, mapped at most from pairs of
the connection. -/
theorem gone_disconnectNode {located : Prop} (cons : Consistent located s) {pair : ConnId × ShardNodeId}
    (mapped : (nodeId, pair) ∈ s.nodeIds.pairs) :
    Gone (Op.disconnectNode pair.1).staleAfter (s.disconnectNode pair.1) nodeId := by
  have member : nodeId ∈ s.nodesOfConnection pair.1 :=
    List.mem_map.mpr ⟨(nodeId, pair), List.mem_filter.mpr ⟨mapped, by simp⟩, rfl⟩
  have cleared := removeNodes_clears cons member (cons.mapped_held _ _ mapped)
  refine ⟨cleared.1, cleared.2, fun other inPairs => ?_⟩
  have same := BiMap.right_unique mapped (removeNodes_pairs _ _ inPairs)
  subst same
  simp [Op.staleAfter]

theorem gone_removal {located : Prop} (cons : Consistent located s) {pair : ConnId × ShardNodeId}
    (mapped : (nodeId, pair) ∈ s.nodeIds.pairs) {removal : Op}
    (removes : removal = .removeNode pair.1 pair.2 ∨ removal = .disconnectNode pair.1) :
    Gone removal.staleAfter (s.step removal).1 nodeId := by
  rcases removes with rfl | rfl
  · exact gone_removeNode cons mapped
  · exact gone_disconnectNode cons mapped

/-! ## Until the drain -/

theorem pendingAdded_updatePending (g : BlockHash) (target : NodeId) (f : NodeUpdates → NodeUpdates) :
    (s.updatePending g target f).pendingAdded nodeId = s.pendingAdded nodeId := by
  simp only [pendingAdded, lookup_updatePending]
  split
  · rename_i same
    rw [same]
    cases s.chains.lookup g <;> rfl
  · rfl

theorem pendingUpdates_updatePending_ne (g : BlockHash) {target : NodeId} (f : NodeUpdates → NodeUpdates)
    (different : nodeId ≠ target) : (s.updatePending g target f).pendingUpdates nodeId = s.pendingUpdates nodeId := by
  simp only [pendingUpdates, lookup_updatePending]
  split
  · rename_i same
    rw [same]
    cases s.chains.lookup g with
    | none => simp [different]; rfl
    | some updates => simp [different]
  · rfl

/-- Storing updates for another node keeps a removed node gone. -/
theorem Gone.updatePending {stale : ConnId × ShardNodeId → Bool} (gone : Gone stale s nodeId) (g : BlockHash)
    {target : NodeId} (f : NodeUpdates → NodeUpdates) (different : nodeId ≠ target) :
    Gone stale (s.updatePending g target f) nodeId :=
  gone.of_none (fun absent => (pendingAdded_updatePending _ _ _).trans absent)
    (fun absent => (pendingUpdates_updatePending_ne _ _ different).trans absent) fun _ member => member

theorem pendingAdded_recordAdded {g : BlockHash} {added : NodeAddedToChain} (sendNodeData : Bool)
    (different : nodeId ≠ added.id) :
    ((s.chains.entryOrDefault g (recordAdded sendNodeData added)).lookup nodeId.chain).bind
      (·.addedNodes.lookup nodeId) = s.pendingAdded nodeId := by
  rw [HashMap.lookup_entryOrDefault_eq, pendingAdded]
  split
  · rename_i same
    rw [same]
    cases s.chains.lookup g <;> cases sendNodeData <;>
      simp [recordAdded_addedNodes, AList.lookup_insert_ne different] <;> rfl
  · rfl

theorem drainUpdatesForAllFeeds_pending :
    s.drainUpdatesForAllFeeds.1.pendingAdded nodeId = s.pendingAdded nodeId ∧
      s.drainUpdatesForAllFeeds.1.pendingUpdates nodeId = s.pendingUpdates nodeId := by
  simp only [pendingAdded, pendingUpdates, lookup_drainUpdatesForAllFeeds]
  cases s.chains.lookup nodeId.chain <;> exact ⟨rfl, rfl⟩

/-- A drain only empties the entries it drains. -/
theorem drainChainUpdates_none :
    (s.pendingAdded nodeId = none → s.drainChainUpdates.1.pendingAdded nodeId = none) ∧
      (s.pendingUpdates nodeId = none → s.drainChainUpdates.1.pendingUpdates nodeId = none) := by
  simp only [pendingAdded, pendingUpdates, lookup_drainChainUpdates]
  cases s.chains.lookup nodeId.chain with
  | none => exact ⟨id, id⟩
  | some updates =>
    simp only [Option.map_some', Option.some_bind]
    split
    · exact ⟨fun _ => rfl, fun _ => rfl⟩
    · exact ⟨id, id⟩

/-- What keeps a removed node gone: an operation that admits no node under its id, delivers
nothing from a pair it may still be mapped from, and gives it no location. -/
theorem Gone.step {stale : ConnId × ShardNodeId → Bool} (gone : Gone stale s nodeId) :
    ∀ op : Op, op.avoids stale nodeId = true → (s.step op).2.admits nodeId = false →
      Gone stale (s.step op).1 nodeId
  | .addNode genesisHash shardConnId localId details, _, admits => by
    simp only [State.step] at admits ⊢
    rcases addNode_cases genesisHash shardConnId localId details with
      ⟨_, result⟩ | ⟨added, st', admitted, result⟩ <;> rw [result] at admits ⊢
    · exact gone
    have different : nodeId ≠ added.id := fun same => by simp [Output.admits, same] at admits
    refine gone.of_none (fun absent => (pendingAdded_recordAdded _ different).trans absent)
      (fun absent => (pendingUpdates_entryOrDefault (recordAdded_updatedNodes _ added) nodeId).trans absent)
      (fun pair member => ?_)
    simp only [BiMap.mem_insert, Prod.mk.injEq] at member
    rcases member with ⟨same, -⟩ | ⟨member, -, -⟩
    · exact absurd same different
    · exact member
  | .updateNode shardConnId localId payload, avoids, _ => by
    simp only [State.step]
    rcases updateNode_cases shardConnId localId payload with same | ⟨target, mapped, -, -, result⟩
    · rw [same]; exact gone
    have different : nodeId ≠ target := fun same => by
      have stale := gone.unmapped _ (same ▸ mapped)
      simp [Op.avoids, stale] at avoids
    rw [result]
    exact gone.updatePending _ _ different
  | .removeNode shardConnId localId, _, _ => by
    simp only [State.step]
    rcases removeNode_cases (s := s) shardConnId localId with ⟨-, same⟩ | ⟨_, -, result⟩
    · rw [same]; exact gone
    · rw [result]
      exact (gone.unmap fun _ member => (BiMap.mem_removeByRight.mp member).1).removeNodes _
  | .disconnectNode _, _, _ => gone.removeNodes _
  | .updateNodeLocation target location, avoids, _ => by
    have different : nodeId ≠ target := fun same => by simp [Op.avoids, same] at avoids
    simp only [State.step]
    rcases updateNodeLocation_cases target location with same | ⟨_, -, -, -, result⟩
    · rw [same]; exact gone.setState _
    · rw [result]; exact (gone.setState _).updatePending _ _ different
  | .drainUpdatesForAllFeeds, _, _ =>
    gone.of_none (fun absent => drainUpdatesForAllFeeds_pending.1.trans absent)
      (fun absent => drainUpdatesForAllFeeds_pending.2.trans absent) fun _ member => member
  | .drainChainUpdates, _, _ =>
    gone.of_none drainChainUpdates_none.1 drainChainUpdates_none.2 fun _ member => member
  | .updateAddedNodesMessages, _, _ =>
    gone.of_none (by simp [State.step, pendingAdded]) (by simp [State.step, pendingUpdates]) (by simp [State.step])

/-! ## The drain -/

/-- All the messages replaying a node's updates name its slot. -/
theorem filter_names_replayMessages (st : OrdinaryState) (target : NodeId) (updates : NodeUpdates)
    (slot : Nat) :
    (replayMessages st target updates).filter (FeedMessage.names slot) =
      if target.slot = slot then replayMessages st target updates else [] := by
  unfold replayMessages
  by_cases same : target.slot = slot <;> cases updates.location <;> split <;>
    simp [FeedMessage.names, List.filter_map, Function.comp_def, same]

/-- A drain reports a removed node at most as one `RemovedNode`. -/
theorem filter_names_drain {located : Prop} {stale : ConnId × ShardNodeId → Bool}
    (cons : Consistent located s) (gone : Gone stale s nodeId) :
    ((chainMessages s.drain.2.2 nodeId.chain).filter (FeedMessage.names nodeId.slot)).Sublist
      [.removedNode nodeId.slot] := by
  have firstGone : Gone stale s.drainUpdatesForAllFeeds.1 nodeId := gone.step .drainUpdatesForAllFeeds rfl rfl
  have firstCons := cons.drainUpdatesForAllFeeds
  rw [State.drain, chainMessages_drainChainUpdates]
  cases found : s.drainUpdatesForAllFeeds.1.chains.lookup nodeId.chain with
  | none => exact List.nil_sublist _
  | some updates =>
    simp only [Option.map_some', Option.getD_some]
    split
    swap
    · exact List.nil_sublist _
    have ok := firstCons.entries _ _ found
    -- An entry of the chain's maps is of another slot than the node, which has none there.
    have otherSlot : ∀ {γ : Type} {m : HashMap NodeId γ}, m.lookup nodeId = none → ∀ entry ∈ m.entries,
        entry.1.chain = nodeId.chain → entry.1.slot ≠ nodeId.slot := fun absent entry member chain slot =>
      AList.lookup_eq_none.mp absent (nodeId_eq chain slot ▸ List.mem_keys_of_mem member)
    have addedNone : updates.addedNodes.lookup nodeId = none := by
      simpa [pendingAdded, found] using firstGone.added
    have updatedNone : updates.updatedNodes.lookup nodeId = none := by
      simpa [pendingUpdates, found] using firstGone.updated
    have added : (updates.addedNodes.entries.map fun entry => FeedMessage.addedNode entry.1.slot entry.2).filter
        (FeedMessage.names nodeId.slot) = [] := by
      refine List.filter_eq_nil_iff.mpr fun message member named => ?_
      obtain ⟨entry, inAdded, rfl⟩ := List.mem_map.mp member
      exact otherSlot addedNone entry inAdded (ok.added _ (List.mem_keys_of_mem inAdded)).1
        (by simpa [FeedMessage.names] using named)
    have updated : (updates.updatedNodes.entries.flatMap fun entry =>
        replayMessages s.drainUpdatesForAllFeeds.1.state entry.1 entry.2).filter
          (FeedMessage.names nodeId.slot) = [] := by
      rw [List.filter_flatMap, List.flatMap_eq_nil_iff]
      intro entry inUpdated
      rw [filter_names_replayMessages,
        if_neg (otherSlot updatedNone entry inUpdated (ok.updated _ (List.mem_keys_of_mem inUpdated)).1)]
    have removed : updates.removedNodes.elems.filter (fun other => other.slot == nodeId.slot) |>.Sublist [nodeId] :=
      sublist_singleton_of_nodup (updates.removedNodes.nodup.filter _) fun other member => by
        rw [List.mem_filter] at member
        exact nodeId_eq (ok.removed other member.1).1 (by simpa using member.2)
    simp only [chainUpdateMessages, List.filter_append, added, updated, List.append_nil, List.filter_map,
      Function.comp_def, FeedMessage.names]
    exact removed.map _

end State

theorem Run.gone_steps {stale : ConnId × ShardNodeId → Bool} {nodeId : NodeId} :
    ∀ (ops : List Op) (run : Run), State.Consistent False run.state → State.Gone stale run.state nodeId →
      run.Along (fun s op => op.avoids stale nodeId = true ∧ (s.step op).2.admits nodeId = false) ops →
      State.Consistent False (run.steps ops).state ∧ State.Gone stale (run.steps ops).state nodeId
  | [], _, cons, gone, _ => ⟨cons, gone⟩
  | op :: ops, _, cons, gone, ⟨⟨avoids, admits⟩, along⟩ =>
    Run.gone_steps ops _ (cons.step op False.elim) (gone.step op avoids admits) along

/-- A node that `remove_node` or `disconnect_node` takes away is reported by the next drain at
most as one `RemovedNode`: no `AddedNode`, `LocatedNode` or replayed payload names its slot,
provided that until then no `add_node` admits its id again, no location is given to it, and,
when it was disconnected, its connection delivers nothing more. -/
theorem removed_node_reported_at_most_removed {allowed : State → Op → Prop} {run : Run}
    (reach : Reachable allowed run) {nodeId : NodeId} {pair : ConnId × ShardNodeId}
    (mapped : (nodeId, pair) ∈ run.state.nodeIds.pairs) {removal : Op}
    (removes : removal = .removeNode pair.1 pair.2 ∨ removal = .disconnectNode pair.1) (ops : List Op)
    (after : (run.step removal).1.Along
      (fun s op => op.avoids removal.staleAfter nodeId = true ∧ (s.step op).2.admits nodeId = false) ops) :
    ((chainMessages ((run.step removal).1.steps ops).state.drain.2.2 nodeId.chain).filter
      (FeedMessage.names nodeId.slot)).Sublist [.removedNode nodeId.slot] := by
  have cons := reach.consistent.mono False.elim
  obtain ⟨finalCons, finalGone⟩ := Run.gone_steps ops (run.step removal).1 (cons.step removal False.elim)
    (State.gone_removal cons mapped removes) after
  exact State.filter_names_drain finalCons finalGone

theorem removed_node_reported_at_most_removed_admitted :
    let run := (Run.fresh [] 10 [] true).steps [.addNode 7 1 1 ⟨"A", "a"⟩, .drainUpdatesForAllFeeds,
      .drainChainUpdates, .addNode 7 1 2 ⟨"A", "x"⟩]
    ((chainMessages ((run.step (.removeNode 1 2)).1.steps [.updateNode 1 1 (.blockImport ⟨1, 1⟩)]).state.drain.2.2
      7).filter (FeedMessage.names 1)).Sublist [.removedNode 1] :=
  have mapped : (⟨7, 1⟩, (1, 2)) ∈ ((Run.fresh [] 10 [] true).steps [.addNode 7 1 1 ⟨"A", "a"⟩,
      .drainUpdatesForAllFeeds, .drainChainUpdates, .addNode 7 1 2 ⟨"A", "x"⟩]).state.nodeIds.pairs := by decide
  removed_node_reported_at_most_removed
    (Reachable.steps _ (Reachable.fresh [] 10 [] true : Reachable (fun _ _ => True) _) (by decide)) mapped
    (.inl rfl) [.updateNode 1 1 (.blockImport ⟨1, 1⟩)] (by decide)

/-- A node admitted and removed between two drains, from a chain that keeps another node: the
second drain reports the removal. -/
theorem drain_reports_transient_node :
    ∃ first run, first = (Run.fresh [] 10 [] true).steps
        [.addNode 7 1 1 ⟨"A", "a"⟩, .drainUpdatesForAllFeeds, .drainChainUpdates] ∧
      run = first.steps [.addNode 7 1 2 ⟨"A", "x"⟩, .removeNode 1 2] ∧
      Reachable FreshPairs run ∧ (first.step (.addNode 7 1 2 ⟨"A", "x"⟩)).2.admits ⟨7, 1⟩ = true ∧
      chainMessages run.state.drain.2.2 7 = [.removedNode 1] :=
  ⟨_, _, rfl, rfl, .steps _ (.steps _ (.fresh [] 10 [] true) (by decide)) (by decide), by decide⟩

end TelemetryCore
