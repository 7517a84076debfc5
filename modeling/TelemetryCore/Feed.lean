import TelemetryCore.Transient

namespace TelemetryCore

/-!
# What a subscriber sees of a chain

A feed learns a chain's nodes only from the chunks of `drain_chain_updates`: a `RemovedNode`
empties a slot and an `AddedNode` fills one.  This module follows a subscriber that starts with
an empty picture of every chain and applies every drain's chunks (`Watched`), and proves that
right after each drain its picture of a chain is the spec's account of the chain, slot by slot,
with the details each live node was admitted with.

On the way, the underlying state is shown to hold in the chain exactly the account's live nodes,
and the chain's entry to count them (`Mirrors`): the converse of `Simulation`'s refinement, which
only says that live nodes are held.  Between drains the subscriber's picture is the one of the
last drain, and what ties it to the account is the chain's pending deltas: applied to the picture
they give the account's picture (`Tracks`).  Each operation keeps both; `drain_chain_updates`
sends exactly those deltas and empties them.

What is assumed, beside the promises of `Simulation` and, for the subscriber, node data being
sent: no removal takes away every node the chain holds (`KeepsChain`).  Such a removal takes the
whole-chain branch of `remove_nodes`, which drops the chain's entry without removing its nodes,
so the nodes stay in the underlying state and the subscriber keeps showing them.
-/

/-- A subscriber's picture of one chain: the details of the node it shows in each slot. -/
abbrev Picture := Nat → Option NodeDetails

/-- How a subscriber takes one message of a chain's chunks: `RemovedNode` empties the slot,
`AddedNode` shows the node's details in it, and no other message moves a node. -/
def applyMessage (picture : Picture) : FeedMessage → Picture
  | .removedNode slot => Function.update picture slot none
  | .addedNode slot node => Function.update picture slot (some node.details)
  | _ => picture

/-- The account's picture of chain `genesisHash`: the details of the live node in each slot. -/
def livePicture (live : List LiveNode) (genesisHash : BlockHash) : Picture := fun slot =>
  (live.find? fun entry => entry.id = ⟨genesisHash, slot⟩).map LiveNode.details

/-- A subscriber's pictures once an operation's output reaches it: the chunks of
`drain_chain_updates` are applied chain by chain, and nothing else reaches the pictures. -/
def applyOutput (pictures : BlockHash → Picture) : Output → BlockHash → Picture
  | .chainUpdates updates => fun genesisHash =>
    (chainMessages updates genesisHash).foldl applyMessage (pictures genesisHash)
  | _ => pictures

/-- A run watched by a subscriber, with the subscriber's picture of every chain. -/
structure Watched where
  run : Run
  picture : BlockHash → Picture

namespace Watched

/-- One operation, its output reaching the subscriber. -/
def step (watched : Watched) (op : Op) : Watched :=
  ⟨(watched.run.step op).1, applyOutput watched.picture (watched.run.step op).2⟩

/-- A sequence of operations. -/
def steps : Watched → List Op → Watched
  | watched, [] => watched
  | watched, op :: ops => (watched.step op).steps ops

/-- The runs from `State::new`, watched from the start by a subscriber with empty pictures, whose
every operation satisfies `allowed` in the state it is applied to. -/
inductive Reachable (allowed : State → Op → Prop) : Watched → Prop
  | start {run : Run} (denylist : List String) (maxThirdPartyNodes : Nat)
      (firstPartyNetworks : List BlockHash) (sendNodeData : Bool) (metadataPath : Option String)
      (stored : Option (Except String Metadata)) :
      Run.start denylist maxThirdPartyNodes firstPartyNetworks sendNodeData metadataPath stored =
        some run → Reachable allowed ⟨run, fun _ _ => none⟩
  | step {watched : Watched} {op : Op} :
      Reachable allowed watched → allowed watched.run.state op → Reachable allowed (watched.step op)

namespace Reachable

variable {allowed : State → Op → Prop}

theorem fresh (denylist : List String) (maxThirdPartyNodes : Nat) (firstPartyNetworks : List BlockHash)
    (sendNodeData : Bool) :
    Reachable allowed ⟨Run.fresh denylist maxThirdPartyNodes firstPartyNetworks sendNodeData, fun _ _ => none⟩ :=
  .start denylist maxThirdPartyNodes firstPartyNetworks sendNodeData none none (Run.start_fresh _ _ _ _ _)

theorem steps : ∀ {watched : Watched} (ops : List Op), Reachable allowed watched →
    watched.run.Along allowed ops → Reachable allowed (watched.steps ops)
  | _, [], reach, _ => reach
  | _, _ :: ops, reach, ⟨permitted, later⟩ => steps ops (reach.step permitted) later

/-- The run a subscriber watches is a run. -/
theorem run {watched : Watched} (reach : Reachable allowed watched) : TelemetryCore.Reachable allowed watched.run := by
  induction reach with
  | start denylist maxThirdPartyNodes firstPartyNetworks sendNodeData metadataPath stored started =>
    exact .start denylist maxThirdPartyNodes firstPartyNetworks sendNodeData metadataPath stored started
  | step _ permitted earlier => exact earlier.step permitted

end Reachable

end Watched

/-- The nodes a removal takes away: the node the pair maps to, or every node mapped from the
connection. -/
def Op.removalTargets (s : State) : Op → List NodeId
  | .removeNode shardConnId localId => (s.nodeIds.getByRight (shardConnId, localId)).toList
  | .disconnectNode shardConnId => s.nodesOfConnection shardConnId
  | _ => []

/-- The callers' promise that no removal takes away every node chain `genesisHash` holds: it
takes none of them, or fewer than the chain holds. -/
def KeepsChain (genesisHash : BlockHash) (s : State) (op : Op) : Prop :=
  (op.removalTargets s).filter (·.chain = genesisHash) = [] ∨
    ((op.removalTargets s).filter (·.chain = genesisHash)).length < s.state.nodeCount genesisHash

instance (genesisHash : BlockHash) (s : State) (op : Op) : Decidable (KeepsChain genesisHash s op) :=
  inferInstanceAs (Decidable ((op.removalTargets s).filter (·.chain = genesisHash) = [] ∨
    ((op.removalTargets s).filter (·.chain = genesisHash)).length < s.state.nodeCount genesisHash))

/-! ## Pictures -/

section Pictures

variable {genesisHash : BlockHash}

theorem livePicture_cons (entry : LiveNode) (live : List LiveNode) (slot : Nat) :
    livePicture (entry :: live) genesisHash slot =
      if entry.id = ⟨genesisHash, slot⟩ then some entry.details else livePicture live genesisHash slot := by
  by_cases same : entry.id = ⟨genesisHash, slot⟩ <;> simp [livePicture, List.find?_cons, same]

/-- Rewriting entries without touching their ids and details keeps the account's picture. -/
theorem livePicture_map {f : LiveNode → LiveNode} (keeps : ∀ entry, (f entry).id = entry.id ∧
    (f entry).details = entry.details) : ∀ live : List LiveNode, livePicture (live.map f) genesisHash = livePicture live genesisHash
  | [] => rfl
  | entry :: live => by
    funext slot
    rw [List.map_cons, livePicture_cons, livePicture_cons, livePicture_map keeps live, (keeps entry).1,
      (keeps entry).2]

/-- Dropping from the account exactly the entries of `targets` empties their slots. -/
theorem livePicture_filter {keep : LiveNode → Bool} {targets : List NodeId} :
    ∀ live : List LiveNode, (∀ entry ∈ live, keep entry = true ↔ entry.id ∉ targets) → ∀ slot,
      livePicture (live.filter keep) genesisHash slot =
        if ⟨genesisHash, slot⟩ ∈ targets then none else livePicture live genesisHash slot
  | [], _, slot => by simp [livePicture]
  | entry :: live, kept, slot => by
    have later := livePicture_filter live (fun other member => kept other (List.mem_cons_of_mem _ member)) slot
    have here := kept entry (List.mem_cons_self _ _)
    rw [livePicture_cons, List.filter_cons]
    by_cases keptHere : keep entry = true
    · rw [if_pos keptHere, livePicture_cons, later]
      by_cases same : entry.id = ⟨genesisHash, slot⟩
      · simp only [same, if_true, if_neg (same ▸ here.mp keptHere)]
      · simp only [same, if_false]
    · rw [if_neg keptHere, later]
      by_cases same : entry.id = ⟨genesisHash, slot⟩
      · have removed : ⟨genesisHash, slot⟩ ∈ targets := same ▸ not_not.mp (mt here.mpr keptHere)
        simp only [removed, if_true]
      · simp only [same, if_false]

/-- A way of taking a chain's messages slot by slot in which `RemovedNode` empties the slot and
`AddedNode` fills it with what `ofNode` keeps of the node. -/
structure FillsSlots {α : Type} (apply : (Nat → Option α) → FeedMessage → Nat → Option α) (ofNode : Node → α) :
    Prop where
  removed : ∀ view slot, apply view (.removedNode slot) = Function.update view slot none
  added : ∀ view slot node, apply view (.addedNode slot node) = Function.update view slot (some (ofNode node))

theorem applyMessage_fillsSlots : FillsSlots applyMessage Node.details := ⟨fun _ _ => rfl, fun _ _ _ => rfl⟩

namespace FillsSlots

variable {α : Type} {apply : (Nat → Option α) → FeedMessage → Nat → Option α} {ofNode : Node → α}

/-- A chain's `RemovedNode` messages empty the slots of the nodes they name. -/
theorem foldl_removed (fills : FillsSlots apply ofNode) :
    ∀ (nodeIds : List NodeId) (view : Nat → Option α), (∀ nodeId ∈ nodeIds, nodeId.chain = genesisHash) → ∀ slot,
      (nodeIds.map fun nodeId => FeedMessage.removedNode nodeId.slot).foldl apply view slot =
        if ⟨genesisHash, slot⟩ ∈ nodeIds then none else view slot
  | [], _, _, slot => by simp
  | nodeId :: rest, view, chained, slot => by
    rw [List.map_cons, List.foldl_cons, fills.foldl_removed rest _
      (fun other member => chained other (List.mem_cons_of_mem _ member)), fills.removed]
    by_cases same : nodeId = ⟨genesisHash, slot⟩
    · subst same
      simp
    · have otherSlot : slot ≠ nodeId.slot := fun sameSlot =>
        same (nodeId_eq (chained nodeId (List.mem_cons_self _ _)) sameSlot.symm)
      simp [Function.update_noteq otherSlot, Ne.symm same]

/-- A chain's `AddedNode` messages, one per node of a keyed list, fill each node's slot. -/
theorem foldl_added (fills : FillsSlots apply ofNode) :
    ∀ (entries : List (Σ _ : NodeId, Node)) (view : Nat → Option α), entries.NodupKeys →
      (∀ entry ∈ entries, entry.1.chain = genesisHash) → ∀ slot,
      (entries.map fun entry => FeedMessage.addedNode entry.1.slot entry.2).foldl apply view slot =
        ((entries.dlookup ⟨genesisHash, slot⟩).map ofNode).or (view slot)
  | [], _, _, _, slot => rfl
  | ⟨nodeId, node⟩ :: rest, view, nodup, chained, slot => by
    rw [List.nodupKeys_cons] at nodup
    rw [List.map_cons, List.foldl_cons, fills.foldl_added rest _ nodup.2
      (fun other member => chained other (List.mem_cons_of_mem _ member)), fills.added]
    by_cases same : nodeId = ⟨genesisHash, slot⟩
    · subst same
      simp [List.dlookup_cons_eq, List.dlookup_eq_none.mpr nodup.1]
    · have otherSlot : slot ≠ nodeId.slot := fun sameSlot =>
        same (nodeId_eq (chained _ (List.mem_cons_self _ _)) sameSlot.symm)
      simp [Function.update_noteq otherSlot, List.dlookup_cons_ne rest ⟨nodeId, node⟩ (Ne.symm same)]

end FillsSlots

/-- Replays move no node. -/
theorem foldl_applyMessage_replays (st : OrdinaryState) (entries : List (Σ _ : NodeId, NodeUpdates))
    (picture : Picture) :
    (entries.flatMap fun entry => State.replayMessages st entry.1 entry.2).foldl applyMessage picture = picture := by
  induction entries generalizing picture with
  | nil => rfl
  | cons entry rest later =>
    rw [List.flatMap_cons, List.foldl_append, State.replayMessages, List.foldl_append]
    cases entry.2.location <;> split <;> simp [applyMessage, later, List.foldl_map]

end Pictures

/-! ## The wrapper's pending deltas, as a picture -/

namespace State

open OrdinaryState

variable {s : State} {genesisHash : BlockHash}

/-- Whether `nodeId`'s chain entry records it removed. -/
def pendingRemoved (s : State) (nodeId : NodeId) : Bool :=
  ((s.chains.lookup nodeId.chain).map fun updates => decide (nodeId ∈ updates.removedNodes)).getD false

/-- The count chain `genesisHash`'s entry holds, `0` when the chain has no entry. -/
def entryCount (s : State) (genesisHash : BlockHash) : Nat :=
  ((s.chains.lookup genesisHash).map (·.nodeCount)).getD 0

/-- The highest count chain `genesisHash`'s entry records, `0` when the chain has no entry. -/
def entryHighest (s : State) (genesisHash : BlockHash) : Nat :=
  ((s.chains.lookup genesisHash).map (·.highestNodeCount)).getD 0

/-- The picture a subscriber holding `picture` reaches once chain `genesisHash`'s pending deltas
are sent: the added nodes shown, the removed ones gone, every other slot as it was. -/
def pendingPicture (s : State) (genesisHash : BlockHash) (picture : Picture) : Picture := fun slot =>
  ((s.pendingAdded ⟨genesisHash, slot⟩).map Node.details).or
    (if s.pendingRemoved ⟨genesisHash, slot⟩ then none else picture slot)

theorem pendingPicture_of_lookup {updates : ChainUpdates} (found : s.chains.lookup genesisHash = some updates)
    (picture : Picture) (slot : Nat) :
    s.pendingPicture genesisHash picture slot =
      ((updates.addedNodes.lookup ⟨genesisHash, slot⟩).map Node.details).or
        (if ⟨genesisHash, slot⟩ ∈ updates.removedNodes then none else picture slot) := by
  simp [pendingPicture, pendingAdded, pendingRemoved, found]

theorem pendingPicture_of_none (absent : s.chains.lookup genesisHash = none) (picture : Picture) :
    s.pendingPicture genesisHash picture = picture := by
  funext slot
  simp [pendingPicture, pendingAdded, pendingRemoved, absent]

/-- A chain's pending picture and count read the chain's entry only. -/
theorem pendingPicture_congr {s' : State} (same : s'.chains.lookup genesisHash = s.chains.lookup genesisHash) :
    s'.pendingPicture genesisHash = s.pendingPicture genesisHash ∧ s'.entryCount genesisHash = s.entryCount genesisHash := by
  refine ⟨funext fun picture => funext fun slot => ?_, by simp only [entryCount, same]⟩
  cases found : s.chains.lookup genesisHash with
  | none => rw [pendingPicture_of_none (same.trans found), pendingPicture_of_none found]
  | some updates => rw [pendingPicture_of_lookup (same.trans found), pendingPicture_of_lookup found]

/-- What a node's chain entry holds for it depends on that entry only. -/
theorem pending_of_lookup {s' : State} (same : s'.chains.lookup genesisHash = s.chains.lookup genesisHash)
    {nodeId : NodeId} (chain : nodeId.chain = genesisHash) :
    s'.pendingAdded nodeId = s.pendingAdded nodeId ∧ s'.pendingRemoved nodeId = s.pendingRemoved nodeId ∧
      s'.pendingUpdates nodeId = s.pendingUpdates nodeId := by
  subst chain
  simp only [pendingAdded, pendingRemoved, pendingUpdates, same, and_self]

/-- What a removal of `targets` leaves pending for the nodes of chain `genesisHash`, node data being
sent: each target recorded removed, with no added record and no stored updates, and every other
node as it was. -/
structure RemovesPending (genesisHash : BlockHash) (targets : List NodeId) (s s' : State) : Prop where
  added : ∀ nodeId : NodeId, nodeId.chain = genesisHash →
    s'.pendingAdded nodeId = if nodeId ∈ targets then none else s.pendingAdded nodeId
  removed : ∀ nodeId : NodeId, nodeId.chain = genesisHash →
    s'.pendingRemoved nodeId = (decide (nodeId ∈ targets) || s.pendingRemoved nodeId)
  updated : ∀ nodeId : NodeId, nodeId.chain = genesisHash →
    s'.pendingUpdates nodeId = if nodeId ∈ targets then none else s.pendingUpdates nodeId

namespace RemovesPending

variable {targets : List NodeId} {s' : State}

/-- A removal that takes none of the chain's nodes and leaves its entry as it was. -/
theorem of_lookup (same : s'.chains.lookup genesisHash = s.chains.lookup genesisHash)
    (outside : ∀ nodeId : NodeId, nodeId.chain = genesisHash → nodeId ∉ targets) :
    RemovesPending genesisHash targets s s' where
  added nodeId chain := by rw [if_neg (outside nodeId chain), (pending_of_lookup same chain).1]
  removed nodeId chain := by simp [outside nodeId chain, (pending_of_lookup same chain).2.1]
  updated nodeId chain := by rw [if_neg (outside nodeId chain), (pending_of_lookup same chain).2.2]

/-- The same removal seen from a state with the same entry for the chain, its targets listed
with the same nodes of the chain. -/
theorem congr {c : State} {group : List NodeId} (removes : RemovesPending genesisHash group c s')
    (lookup : c.chains.lookup genesisHash = s.chains.lookup genesisHash)
    (member : ∀ nodeId : NodeId, nodeId.chain = genesisHash → (nodeId ∈ group ↔ nodeId ∈ targets)) :
    RemovesPending genesisHash targets s s' where
  added nodeId chain := by
    simp only [removes.added nodeId chain, member nodeId chain, (pending_of_lookup lookup chain).1]
  removed nodeId chain := by
    simp only [removes.removed nodeId chain, member nodeId chain, (pending_of_lookup lookup chain).2.1]
  updated nodeId chain := by
    simp only [removes.updated nodeId chain, member nodeId chain, (pending_of_lookup lookup chain).2.2]

/-- Followed by a change that keeps the chain's entry. -/
theorem trans_lookup {c : State} (removes : RemovesPending genesisHash targets s c)
    (same : s'.chains.lookup genesisHash = c.chains.lookup genesisHash) : RemovesPending genesisHash targets s s' where
  added nodeId chain := by rw [(pending_of_lookup same chain).1, removes.added nodeId chain]
  removed nodeId chain := by rw [(pending_of_lookup same chain).2.1, removes.removed nodeId chain]
  updated nodeId chain := by rw [(pending_of_lookup same chain).2.2, removes.updated nodeId chain]

/-- The targets' slots leave the chain's pending picture. -/
theorem pendingPicture (removes : RemovesPending genesisHash targets s s') (picture : Picture) (slot : Nat) :
    s'.pendingPicture genesisHash picture slot =
      if ⟨genesisHash, slot⟩ ∈ targets then none else s.pendingPicture genesisHash picture slot := by
  rw [State.pendingPicture, State.pendingPicture, removes.added ⟨genesisHash, slot⟩ rfl,
    removes.removed ⟨genesisHash, slot⟩ rfl]
  by_cases member : (⟨genesisHash, slot⟩ : NodeId) ∈ targets <;> simp [member]

end RemovesPending

/-- The loop of `remove_nodes` over distinct held nodes of chain `g` takes each of them away, and
the chain's count down by their number. -/
theorem removeChainNodes_state {g : BlockHash} :
    ∀ (s : State) (updates : ChainUpdates) (nodeIds : List NodeId), nodeIds.Nodup →
      (∀ nodeId ∈ nodeIds, nodeId.chain = g ∧ (s.state.node nodeId).isSome) →
      (∀ nodeId, (s.removeChainNodes updates nodeIds).1.state.node nodeId =
        if nodeId ∈ nodeIds then none else s.state.node nodeId) ∧
      (s.removeChainNodes updates nodeIds).1.state.nodeCount g + nodeIds.length = s.state.nodeCount g
  | s, updates, [], _, _ => ⟨fun _ => by simp [removeChainNodes], rfl⟩
  | s, updates, nodeId :: rest, nodup, targets => by
    rw [List.nodup_cons] at nodup
    obtain ⟨inChain, held⟩ := targets nodeId (List.mem_cons_self _ _)
    obtain ⟨removed, st', removal⟩ := exists_removeNode_of_held held
    have removes := removeNode_removes removal
    unfold removeChainNodes
    simp only [removal]
    obtain ⟨nodes, count⟩ := removeChainNodes_state { s with nodeIds := s.nodeIds.removeByLeft nodeId, state := st' }
      _ rest nodup.2 fun other member => ⟨(targets other (List.mem_cons_of_mem _ member)).1, by
        rw [removes.frame other (fun same => nodup.1 (same ▸ member))]
        exact (targets other (List.mem_cons_of_mem _ member)).2⟩
    refine ⟨fun other => ?_, ?_⟩
    · rw [nodes]
      by_cases same : other = nodeId
      · subst same
        simp [nodup.1, removes.gone]
      · simp [same, removes.frame other same]
    · have fewer := removes.count_succ
      rw [inChain] at fewer
      dsimp only at count
      rw [List.length_cons]
      omega

/-- The loop of `remove_nodes` over distinct held nodes, node data being sent: each node's added
record and stored updates are dropped and its removal recorded. -/
theorem removeChainNodes_effect :
    ∀ (s : State) (updates : ChainUpdates) (nodeIds : List NodeId), nodeIds.Nodup →
      (∀ nodeId ∈ nodeIds, (s.state.node nodeId).isSome) → s.sendNodeData = true →
      (∀ nodeId, (s.removeChainNodes updates nodeIds).2.addedNodes.lookup nodeId =
        if nodeId ∈ nodeIds then none else updates.addedNodes.lookup nodeId) ∧
      (∀ nodeId, nodeId ∈ (s.removeChainNodes updates nodeIds).2.removedNodes ↔
        nodeId ∈ nodeIds ∨ nodeId ∈ updates.removedNodes) ∧
      (∀ nodeId, (s.removeChainNodes updates nodeIds).2.updatedNodes.lookup nodeId =
        if nodeId ∈ nodeIds then none else updates.updatedNodes.lookup nodeId)
  | s, updates, [], _, _, _ => ⟨fun _ => rfl, fun _ => by simp [removeChainNodes], fun _ => rfl⟩
  | s, updates, nodeId :: rest, nodup, targets, send => by
    rw [List.nodup_cons] at nodup
    obtain ⟨removed, st', removal⟩ := exists_removeNode_of_held (targets nodeId (List.mem_cons_self _ _))
    have removes := removeNode_removes removal
    unfold removeChainNodes
    simp only [removal, send, if_true]
    obtain ⟨added, marked, updated⟩ := removeChainNodes_effect
      { s with state := st', nodeIds := s.nodeIds.removeByLeft nodeId, sendNodeData := true }
      { updates with
        nodeCount := removed.chainNodeCount
        chainLabel := removed.newChainLabel
        addedNodes := updates.addedNodes.erase nodeId
        removedNodes := updates.removedNodes.insert nodeId
        updatedNodes := updates.updatedNodes.erase nodeId } rest nodup.2 (fun other member => by
      rw [removes.frame other (fun same => nodup.1 (same ▸ member))]
      exact targets other (List.mem_cons_of_mem _ member)) rfl
    refine ⟨fun other => ?_, fun other => ?_, fun other => ?_⟩
    · rw [added]
      by_cases same : other = nodeId
      · subst same
        simp [nodup.1]
      · simp [same, AList.lookup_erase_ne same]
    · rw [marked]
      simp only [HashSet.mem_insert, List.mem_cons, or_assoc]
      exact or_left_comm
    · rw [updated]
      by_cases same : other = nodeId
      · subst same
        simp [nodup.1]
      · simp [same, AList.lookup_erase_ne same]

/-- The loop of `remove_nodes` never touches the highest count of the entry it updates. -/
theorem removeChainNodes_highestNodeCount :
    ∀ (s : State) (updates : ChainUpdates) (nodeIds : List NodeId),
      (s.removeChainNodes updates nodeIds).2.highestNodeCount = updates.highestNodeCount
  | _, _, [] => rfl
  | s, updates, nodeId :: rest => by
    unfold removeChainNodes
    dsimp only
    split
    · rw [removeChainNodes_highestNodeCount]
      split <;> rfl
    · exact removeChainNodes_highestNodeCount _ _ rest

/-- `remove_nodes` on chain `g`'s own group, when the group is smaller than the entry's count,
which is the chain's: the node-by-node branch, with the effect of its loop. -/
theorem removeChain_effect {g : BlockHash} {nodeIds : List NodeId} (nodup : nodeIds.Nodup)
    (targets : ∀ nodeId ∈ nodeIds, nodeId.chain = g ∧ (s.state.node nodeId).isSome)
    {updates : ChainUpdates} (found : s.chains.lookup g = some updates)
    (counts : updates.nodeCount = s.state.nodeCount g) (fewer : nodeIds.length < updates.nodeCount) :
    (∀ nodeId, (s.removeChain g nodeIds).state.node nodeId =
      if nodeId ∈ nodeIds then none else s.state.node nodeId) ∧
    (s.removeChain g nodeIds).entryCount g = (s.removeChain g nodeIds).state.nodeCount g ∧
    (s.removeChain g nodeIds).state.nodeCount g + nodeIds.length = s.state.nodeCount g ∧
    (s.removeChain g nodeIds).entryHighest g = s.entryHighest g ∧
    (s.sendNodeData = true → RemovesPending g nodeIds s (s.removeChain g nodeIds)) := by
  obtain ⟨nodes, count⟩ := removeChainNodes_state s updates nodeIds nodup targets
  have carried := (removeChainNodes_frame s updates nodeIds fun nodeId member => (targets nodeId member).1).2.2.2.2 counts
  have entry : (s.removeChain g nodeIds).chains.lookup g = some (s.removeChainNodes updates nodeIds).2 := by
    simp [removeChain, found, Nat.ne_of_gt fewer]
  have state : (s.removeChain g nodeIds).state = (s.removeChainNodes updates nodeIds).1.state := by
    simp [removeChain, found, Nat.ne_of_gt fewer]
  refine ⟨fun nodeId => by rw [state]; exact nodes nodeId, by simp [entryCount, entry, state, carried],
    by rw [state]; exact count, by simp [entryHighest, entry, found, removeChainNodes_highestNodeCount],
    fun send => ?_⟩
  obtain ⟨added, marked, updated⟩ := removeChainNodes_effect s updates nodeIds nodup
    (fun nodeId member => (targets nodeId member).2) send
  refine ⟨fun nodeId chain => ?_, fun nodeId chain => ?_, fun nodeId chain => ?_⟩ <;> subst chain
  · simp only [pendingAdded, entry, found, Option.some_bind, added]
  · by_cases member : nodeId ∈ nodeIds <;> simp [pendingRemoved, entry, found, marked, member]
  · simp only [pendingUpdates, entry, found, Option.some_bind, updated]

/-- Chain `genesisHash` of `c` as in `s`: its entry, its count and its nodes. -/
structure ChainAsIn (genesisHash : BlockHash) (s c : State) : Prop where
  lookup : c.chains.lookup genesisHash = s.chains.lookup genesisHash
  count : c.state.nodeCount genesisHash = s.state.nodeCount genesisHash
  nodes : ∀ nodeId : NodeId, nodeId.chain = genesisHash → c.state.node nodeId = s.state.node nodeId

/-- Chain `genesisHash` of `c` as in `s` once the chain's targets are removed: they leave the
underlying state and, node data being sent, the chain's pending deltas; the count goes down by
their number; the entry still counts the chain's nodes and keeps its highest count. -/
structure TargetsRemoved (genesisHash : BlockHash) (targets : List NodeId) (s c : State) : Prop where
  nodes : ∀ nodeId : NodeId, nodeId.chain = genesisHash →
    c.state.node nodeId = if nodeId ∈ targets then none else s.state.node nodeId
  counts : c.entryCount genesisHash = c.state.nodeCount genesisHash
  count : c.state.nodeCount genesisHash + (targets.filter (·.chain = genesisHash)).length =
    s.state.nodeCount genesisHash
  highest : c.entryHighest genesisHash = s.entryHighest genesisHash
  pending : s.sendNodeData = true → RemovesPending genesisHash targets s c

section RemoveGroups

variable {targets : List NodeId} {c : State} {g : BlockHash} {group : List NodeId}

/-- With no target in the chain, the chain is as it was. -/
theorem TargetsRemoved.of_none (none : targets.filter (·.chain = genesisHash) = [])
    (counts : s.entryCount genesisHash = s.state.nodeCount genesisHash) : TargetsRemoved genesisHash targets s s := by
  have outside : ∀ nodeId : NodeId, nodeId.chain = genesisHash → nodeId ∉ targets := fun nodeId chain member =>
    List.not_mem_nil _ (none ▸ List.mem_filter.mpr ⟨member, by simp [chain]⟩)
  exact ⟨fun nodeId chain => by simp [outside nodeId chain], counts, by simp [none], rfl,
    fun _ => .of_lookup rfl outside⟩

/-- Removing another chain's group keeps the chain as in `s`. -/
theorem ChainAsIn.removeChain (as : ChainAsIn genesisHash s c) (chained : ∀ nodeId ∈ group, nodeId.chain = g)
    (other : g ≠ genesisHash) : ChainAsIn genesisHash s (c.removeChain g group) := by
  obtain ⟨-, nodes, others⟩ := removeChain_frame (s := c) chained
  obtain ⟨lookup, count⟩ := others genesisHash (Ne.symm other)
  exact ⟨lookup.trans as.lookup, count.trans as.count, fun nodeId chain =>
    (nodes nodeId fun inGroup => other ((chained nodeId inGroup).symm.trans chain)).trans (as.nodes nodeId chain)⟩

/-- Removing another chain's group keeps what the removal of the chain's targets left. -/
theorem TargetsRemoved.removeChain (removed : TargetsRemoved genesisHash targets s c)
    (chained : ∀ nodeId ∈ group, nodeId.chain = g) (other : g ≠ genesisHash) :
    TargetsRemoved genesisHash targets s (c.removeChain g group) := by
  obtain ⟨-, nodes, others⟩ := removeChain_frame (s := c) chained
  obtain ⟨lookup, count⟩ := others genesisHash (Ne.symm other)
  exact ⟨fun nodeId chain => (nodes nodeId fun inGroup => other ((chained nodeId inGroup).symm.trans chain)).trans
      (removed.nodes nodeId chain),
    by rw [(pendingPicture_congr lookup).2, count]; exact removed.counts, by rw [count]; exact removed.count,
    by simp only [entryHighest, lookup]; exact removed.highest, fun send => (removed.pending send).trans_lookup lookup⟩

/-- Removing the chain's own group, its targets, fewer than its nodes, when the entry counts
them: the node-by-node branch, with the effect of its loop. -/
theorem ChainAsIn.removeChain_own (as : ChainAsIn genesisHash s c) (send : c.sendNodeData = s.sendNodeData)
    (nodup : targets.Nodup) (held : ∀ target ∈ targets, (s.state.node target).isSome)
    (counts : s.entryCount genesisHash = s.state.nodeCount genesisHash)
    (fewer : (targets.filter (·.chain = genesisHash)).length < s.state.nodeCount genesisHash) :
    TargetsRemoved genesisHash targets s (c.removeChain genesisHash (targets.filter (·.chain = genesisHash))) := by
  have member : ∀ nodeId : NodeId, nodeId.chain = genesisHash →
      (nodeId ∈ targets.filter (·.chain = genesisHash) ↔ nodeId ∈ targets) := fun nodeId chain => by simp [chain]
  obtain ⟨updates, found, counted⟩ : ∃ updates, s.chains.lookup genesisHash = some updates ∧
      updates.nodeCount = s.state.nodeCount genesisHash := by
    cases found : s.chains.lookup genesisHash with
    | none => simp only [entryCount, found, Option.map_none', Option.getD_none] at counts; omega
    | some updates => exact ⟨updates, rfl, by simpa [entryCount, found] using counts⟩
  obtain ⟨gone, entryCounted, counted', highest, pending⟩ := removeChain_effect (s := c)
    (nodup.filter fun nodeId : NodeId => decide (nodeId.chain = genesisHash))
    (fun target inFilter =>
      have chain : target.chain = genesisHash := by simpa using (List.mem_filter.mp inFilter).2
      ⟨chain, by rw [as.nodes target chain]; exact held target (List.mem_filter.mp inFilter).1⟩)
    (as.lookup.trans found) (counted.trans as.count.symm) (by omega)
  refine ⟨fun nodeId chain => ?_, entryCounted, by rw [← as.count]; exact counted', ?_,
    fun sent => (pending (send.trans sent)).congr as.lookup member⟩
  · rw [gone, as.nodes nodeId chain]
    simp only [member nodeId chain]
  · rw [highest]
    simp only [entryHighest, as.lookup]

end RemoveGroups

/-- What `remove_nodes` does to chain `genesisHash` when its targets are distinct held nodes, the
chain's entry counts its nodes, and the targets are none or fewer than all the chain's nodes: the
groups are removed one after another, the chain staying as it was until its own group comes. -/
theorem removeNodes_chain {targets : List NodeId} (nodup : targets.Nodup)
    (held : ∀ target ∈ targets, (s.state.node target).isSome)
    (counts : s.entryCount genesisHash = s.state.nodeCount genesisHash)
    (keeps : targets.filter (·.chain = genesisHash) = [] ∨
      (targets.filter (·.chain = genesisHash)).length < s.state.nodeCount genesisHash) :
    TargetsRemoved genesisHash targets s (s.removeNodes targets) := by
  have filed : ∀ target ∈ targets, chainOf s.state target = some target.chain := fun target member => by
    simp [chainOf, getChainByNodeId_eq, mem_chains_of_node (held target member)]
  have ours : ∀ group ∈ (groupByChain s.state targets).entries, group.1 = genesisHash →
      group.2 = targets.filter (·.chain = genesisHash) := fun group member same => by
    rw [groupByChain_lookup (AList.mem_lookup_iff.mpr member), ← same]
    exact List.filter_congr fun target inTargets => by simp [filed target inTargets]
  suffices along : ∀ (groups : List (Σ _ : BlockHash, List NodeId)) (c : State),
      groups ⊆ (groupByChain s.state targets).entries → groups.NodupKeys → c.sendNodeData = s.sendNodeData →
      (genesisHash ∈ groups.keys ∧ ChainAsIn genesisHash s c) ∨
        (genesisHash ∉ groups.keys ∧ TargetsRemoved genesisHash targets s c) →
      TargetsRemoved genesisHash targets s (groups.foldl (fun s entry => s.removeChain entry.1 entry.2) c) from
    along _ s (List.Subset.refl _) (groupByChain s.state targets).nodupKeys rfl
      (if grouped : genesisHash ∈ (groupByChain s.state targets).entries.keys then .inl ⟨grouped, rfl, rfl, fun _ _ => rfl⟩
      else .inr ⟨grouped, .of_none (List.filter_eq_nil_iff.mpr fun target member same => grouped
        (AList.mem_keys.mpr (groupByChain_mem.mpr ⟨target, member, by simpa [filed target member] using same⟩))) counts⟩)
  intro groups
  induction groups with
  | nil => rintro c - - - (⟨absent, -⟩ | ⟨-, done⟩); exacts [absurd absent (List.not_mem_nil _), done]
  | cons group rest later =>
    obtain ⟨g, group⟩ := group
    intro c sub nodupKeys sendC state
    rw [List.nodupKeys_cons] at nodupKeys
    obtain ⟨-, -, nonempty, chained⟩ := groupByChain_facts (sub (List.mem_cons_self _ _))
    refine later _ (fun other member => sub (List.mem_cons_of_mem _ member)) nodupKeys.2
      (by rw [removeChain_sendNodeData]; exact sendC) ?_
    by_cases same : g = genesisHash
    · subst same
      have isOurs : group = targets.filter (·.chain = g) := ours _ (sub (List.mem_cons_self _ _)) rfl
      rcases state with ⟨-, as⟩ | ⟨absent, -⟩
      · refine .inr ⟨nodupKeys.1, ?_⟩
        rw [isOurs]
        exact as.removeChain_own sendC nodup held counts (keeps.resolve_left (isOurs ▸ nonempty))
      · exact absurd (by simp [List.keys]) absent
    · have keys : genesisHash ∈ (⟨g, group⟩ :: rest : List (Σ _ : BlockHash, List NodeId)).keys ↔
          genesisHash ∈ rest.keys := by
        simp [List.keys, Ne.symm same]
      rcases state with ⟨inKeys, as⟩ | ⟨absent, removed⟩
      · exact .inl ⟨keys.mp inKeys, as.removeChain chained same⟩
      · exact .inr ⟨mt keys.mpr absent, removed.removeChain chained same⟩

/-! ### What each operation does to a chain's pending picture -/

/-- A chain's pending picture through its entry, or the empty entry when it has none. -/
theorem pendingPicture_eq_getD (picture : Picture) (slot : Nat) :
    s.pendingPicture genesisHash picture slot =
      ((((s.chains.lookup genesisHash).getD default).addedNodes.lookup ⟨genesisHash, slot⟩).map Node.details).or
        (if ⟨genesisHash, slot⟩ ∈ ((s.chains.lookup genesisHash).getD default).removedNodes then none
          else picture slot) := by
  cases found : s.chains.lookup genesisHash with
  | none =>
    rw [pendingPicture_of_none found]
    rfl
  | some updates => exact pendingPicture_of_lookup found picture slot

/-- Rewriting each entry without touching its added and removed nodes and its count keeps every
chain's pending picture and count. -/
theorem pendingPicture_map {s' : State} {f : ChainUpdates → ChainUpdates}
    (keeps : ∀ updates, (f updates).addedNodes = updates.addedNodes ∧
      (f updates).removedNodes = updates.removedNodes ∧ (f updates).nodeCount = updates.nodeCount)
    (lookup : s'.chains.lookup genesisHash = (s.chains.lookup genesisHash).map f) :
    s'.pendingPicture genesisHash = s.pendingPicture genesisHash ∧ s'.entryCount genesisHash = s.entryCount genesisHash := by
  cases found : s.chains.lookup genesisHash with
  | none => rw [found] at lookup; exact pendingPicture_congr (lookup.trans found.symm)
  | some updates =>
    rw [found, Option.map_some'] at lookup
    refine ⟨funext fun picture => funext fun slot => ?_, by simp [entryCount, lookup, found, keeps]⟩
    rw [pendingPicture_of_lookup lookup, pendingPicture_of_lookup found, (keeps updates).1, (keeps updates).2.1]

/-- Storing a node's updates keeps every chain's pending picture and count, also when it creates
the chain's entry. -/
theorem pendingPicture_updatePending (g : BlockHash) (nodeId : NodeId) (f : NodeUpdates → NodeUpdates) :
    (s.updatePending g nodeId f).pendingPicture genesisHash = s.pendingPicture genesisHash ∧
      (s.updatePending g nodeId f).entryCount genesisHash = s.entryCount genesisHash := by
  by_cases same : genesisHash = g
  · subst same
    refine ⟨funext fun picture => funext fun slot => ?_, ?_⟩
    · rw [pendingPicture_eq_getD, pendingPicture_eq_getD, lookup_updatePending, if_pos rfl]
      rfl
    · simp only [entryCount, lookup_updatePending, if_true]
      cases s.chains.lookup genesisHash <;> rfl
  · exact pendingPicture_congr (by rw [lookup_updatePending, if_neg same])

/-- Recording an admission, node data being sent, shows the node in its slot. -/
theorem pendingPicture_recordAdded {s' : State} {g : BlockHash} {added : NodeAddedToChain}
    (chains : s'.chains = s.chains.entryOrDefault g (recordAdded true added)) (chain : added.id.chain = g)
    (picture : Picture) (slot : Nat) :
    s'.pendingPicture genesisHash picture slot =
      if added.id = ⟨genesisHash, slot⟩ then some added.node.details else s.pendingPicture genesisHash picture slot := by
  by_cases here : g = genesisHash
  · subst here
    rw [pendingPicture_eq_getD, pendingPicture_eq_getD, chains, HashMap.lookup_entryOrDefault, Option.getD_some,
      recordAdded_addedNodes, recordAdded_removedNodes, if_pos rfl, if_pos rfl]
    by_cases same : added.id = ⟨g, slot⟩
    · rw [if_pos same, ← same, AList.lookup_insert]
      rfl
    · rw [if_neg same, AList.lookup_insert_ne (Ne.symm same)]
      simp [Ne.symm same]
  · have elsewhere : added.id ≠ ⟨genesisHash, slot⟩ := fun same => here (chain ▸ same ▸ rfl)
    have lookup : s'.chains.lookup genesisHash = s.chains.lookup genesisHash := by
      rw [chains]
      exact HashMap.lookup_entryOrDefault_ne _ _ (Ne.symm here)
    rw [if_neg elsewhere, (pendingPicture_congr lookup).1]

theorem entryCount_recordAdded {s' : State} {g : BlockHash} {added : NodeAddedToChain} (sendNodeData : Bool)
    (chains : s'.chains = s.chains.entryOrDefault g (recordAdded sendNodeData added)) :
    s'.entryCount genesisHash = if genesisHash = g then added.chainNodeCount else s.entryCount genesisHash := by
  simp only [entryCount, chains, HashMap.lookup_entryOrDefault_eq]
  split <;> simp

/-- A drain sends the pending deltas of every chain whose entry counts nodes, and keeps the
others'. -/
theorem pendingPicture_drainChainUpdates :
    s.drainChainUpdates.1.pendingPicture genesisHash =
        (if s.entryCount genesisHash ≠ 0 then fun picture => picture else s.pendingPicture genesisHash) ∧
      s.drainChainUpdates.1.entryCount genesisHash = s.entryCount genesisHash := by
  have lookup := lookup_drainChainUpdates (s := s) genesisHash
  cases found : s.chains.lookup genesisHash with
  | none =>
    rw [found] at lookup
    simpa [entryCount, found] using pendingPicture_congr (lookup.trans found.symm)
  | some updates =>
    rw [found, Option.map_some'] at lookup
    by_cases counted : updates.nodeCount ≠ 0
    · rw [if_pos counted] at lookup
      refine ⟨?_, by simp [entryCount, lookup, found, ChainUpdates.drained]⟩
      rw [if_pos (by simpa [entryCount, found] using counted)]
      funext picture slot
      simp [pendingPicture_of_lookup lookup, ChainUpdates.drained]
    · rw [if_neg counted] at lookup
      rw [if_neg (by simpa [entryCount, found] using counted)]
      exact pendingPicture_congr (lookup.trans found.symm)

/-- The chunks `drain_chain_updates` sends a chain with a fitting entry take a subscriber's
picture to the pending picture. -/
theorem foldl_chainUpdateMessages {located : Prop} {st st' : OrdinaryState} {sendNodeData : Bool}
    {updates : ChainUpdates} (ok : EntryOk located st' sendNodeData genesisHash updates) (picture : Picture) :
    (chainUpdateMessages st updates).foldl applyMessage picture = fun slot =>
      ((updates.addedNodes.lookup ⟨genesisHash, slot⟩).map Node.details).or
        (if ⟨genesisHash, slot⟩ ∈ updates.removedNodes then none else picture slot) := by
  funext slot
  rw [chainUpdateMessages, List.foldl_append, List.foldl_append, foldl_applyMessage_replays,
    applyMessage_fillsSlots.foldl_added _ _ updates.addedNodes.nodupKeys
      (fun entry member => (ok.added entry.1 (AList.mem_keys.mp (List.mem_keys_of_mem member))).1),
    applyMessage_fillsSlots.foldl_removed _ _ (fun nodeId member => (ok.removed nodeId member).1)]
  rfl

/-- What a subscriber's picture of a chain becomes when a drain's chunks reach it. -/
theorem applyOutput_drainChainUpdates {located : Prop} (cons : Consistent located s)
    (pictures : BlockHash → Picture) :
    applyOutput pictures (.chainUpdates s.drainChainUpdates.2) genesisHash =
      if s.entryCount genesisHash ≠ 0 then s.pendingPicture genesisHash (pictures genesisHash)
      else pictures genesisHash := by
  simp only [applyOutput, chainMessages_drainChainUpdates]
  cases found : s.chains.lookup genesisHash with
  | none => simp [entryCount, found]
  | some updates =>
    by_cases counted : updates.nodeCount ≠ 0
    · simp only [Option.map_some', Option.getD_some, if_pos counted, entryCount, found]
      rw [foldl_chainUpdateMessages (cons.entries _ _ found)]
      funext slot
      rw [pendingPicture_of_lookup found]
    · have zero : updates.nodeCount = 0 := not_not.mp counted
      simp [entryCount, found, zero]

/-! ## The targets of a removal -/

section Targets

variable {live : List LiveNode} {shardConnId : ConnId}

/-- `remove_node` on an unmapped pair targets nothing. -/
theorem removalTargets_removeNode_of_unmapped {localId : ShardNodeId}
    (unmapped : ∀ nodeId, (nodeId, (shardConnId, localId)) ∉ s.nodeIds.pairs) :
    (Op.removeNode shardConnId localId).removalTargets s = [] := by
  cases found : s.nodeIds.getByRight (shardConnId, localId) with
  | none => simp [Op.removalTargets, found]
  | some nodeId => exact absurd (BiMap.getByRight_eq_some.mp found) (unmapped nodeId)

/-- `remove_node` on a mapped pair targets the node mapped from it. -/
theorem removalTargets_removeNode_of_mapped {localId : ShardNodeId} {nodeId : NodeId}
    (nodeMapped : (nodeId, (shardConnId, localId)) ∈ s.nodeIds.pairs) :
    (Op.removeNode shardConnId localId).removalTargets s = [nodeId] := by
  simp [Op.removalTargets, BiMap.getByRight_eq_some.mpr nodeMapped]

/-- The account's nodes `remove_node` keeps are those it does not target. -/
theorem removeNode_keeps_untargeted (mapped : ∀ entry ∈ live, (entry.id, entry.pair) ∈ s.nodeIds.pairs)
    (shardConnId : ConnId) (localId : ShardNodeId) :
    ∀ entry ∈ live, decide (entry.pair ≠ (shardConnId, localId)) = true ↔
      entry.id ∉ (Op.removeNode shardConnId localId).removalTargets s := fun entry member => by
  simp only [Op.removalTargets, decide_eq_true_eq, Option.mem_toList, Option.mem_def, BiMap.getByRight_eq_some]
  exact ⟨fun other inPairs => other (BiMap.right_unique (mapped entry member) inPairs),
    fun outside same => outside (same ▸ mapped entry member)⟩

/-- The account's nodes `disconnect_node` keeps are those it does not target. -/
theorem disconnectNode_keeps_untargeted (mapped : ∀ entry ∈ live, (entry.id, entry.pair) ∈ s.nodeIds.pairs) :
    ∀ entry ∈ live, decide (entry.pair.1 ≠ shardConnId) = true ↔ entry.id ∉ s.nodesOfConnection shardConnId := by
  intro entry member
  simp only [decide_eq_true_eq, nodesOfConnection, List.mem_map, List.mem_filter, not_exists, not_and]
  refine ⟨fun other ⟨id, pair⟩ ⟨inPairs, connection⟩ same => ?_, fun outside same => ?_⟩
  · dsimp only at same
    subst same
    exact other (by rw [BiMap.right_unique (mapped entry member) inPairs]; exact connection)
  · exact outside _ ⟨mapped entry member, same⟩ rfl

/-- `disconnect_node` targets distinct nodes, each held when the wrapper is consistent. -/
theorem nodesOfConnection_targets {located : Prop} (cons : Consistent located s) :
    (s.nodesOfConnection shardConnId).Nodup ∧
      ∀ target ∈ s.nodesOfConnection shardConnId, (s.state.node target).isSome := by
  refine ⟨s.nodeIds.left_nodup.sublist ((List.filter_sublist _).map _), fun target member => ?_⟩
  obtain ⟨pair, inPairs, rfl⟩ := List.mem_map.mp member
  exact cons.mapped_held pair.1 pair.2 (List.mem_filter.mp inPairs).1

end Targets

/-! ## The chain's nodes in the underlying state -/

/-- What ties the underlying state's nodes of chain `genesisHash` to the account: the chain's
entry counts its nodes, and the nodes it holds, with their details, are the account's live nodes
of the chain, so that no removed node lingers in a slot. -/
structure Mirrors (genesisHash : BlockHash) (s : State) (live : List LiveNode) : Prop where
  counts : s.entryCount genesisHash = s.state.nodeCount genesisHash
  held : ∀ slot, (s.state.node ⟨genesisHash, slot⟩).map Node.details = livePicture live genesisHash slot

namespace Mirrors

variable {live : List LiveNode}

/-- A change that keeps the chain's entry count, its count, its nodes' details and the account's
picture keeps the invariant. -/
theorem congr (mirrors : Mirrors genesisHash s live) {s' : State} {live' : List LiveNode}
    (entry : s'.entryCount genesisHash = s.entryCount genesisHash)
    (count : s'.state.nodeCount genesisHash = s.state.nodeCount genesisHash)
    (nodes : ∀ slot, (s'.state.node ⟨genesisHash, slot⟩).map Node.details =
      (s.state.node ⟨genesisHash, slot⟩).map Node.details)
    (same : livePicture live' genesisHash = livePicture live genesisHash) : Mirrors genesisHash s' live' :=
  ⟨by rw [entry, count]; exact mirrors.counts, fun slot => by rw [nodes, same]; exact mirrors.held slot⟩

/-- A removal that takes the chain's targets out of the account, and none or fewer than all of
the chain's nodes, keeps the invariant. -/
theorem removeNodes (mirrors : Mirrors genesisHash s live) {targets : List NodeId} (nodup : targets.Nodup)
    (held : ∀ target ∈ targets, (s.state.node target).isSome)
    (keeps : targets.filter (·.chain = genesisHash) = [] ∨
      (targets.filter (·.chain = genesisHash)).length < s.state.nodeCount genesisHash)
    {live' : List LiveNode}
    (dropped : ∀ slot, livePicture live' genesisHash slot =
      if ⟨genesisHash, slot⟩ ∈ targets then none else livePicture live genesisHash slot) :
    Mirrors genesisHash (s.removeNodes targets) live' := by
  obtain ⟨gone, counted, -, -, -⟩ := removeNodes_chain nodup held mirrors.counts keeps
  refine ⟨counted, fun slot => ?_⟩
  rw [gone _ rfl, dropped, ← mirrors.held]
  split <;> rfl

/-- Every operation keeps the invariant, when each live node is mapped from its pair and a
removal leaves the chain some of its nodes. -/
theorem step {located : Prop} (mirrors : Mirrors genesisHash s live) (cons : Consistent located s)
    (mapped : ∀ entry ∈ live, (entry.id, entry.pair) ∈ s.nodeIds.pairs) :
    ∀ op : Op, KeepsChain genesisHash s op → Mirrors genesisHash (s.step op).1 (liveAfter live op (s.step op).2)
  | .addNode g shardConnId localId details, _ => by
    simp only [State.step]
    rcases addNode_cases g shardConnId localId details with ⟨reason, result⟩ | ⟨added, st', admitted, result⟩
    · rw [result]
      exact mirrors
    have admits := addNode_admits admitted
    have chains : (s.addNode g shardConnId localId details).1.chains =
        s.chains.entryOrDefault g (recordAdded s.sendNodeData added) := by
      rw [result]
    have state : (s.addNode g shardConnId localId details).1.state = st' := by rw [result]
    rw [show (s.addNode g shardConnId localId details).2 = .ok added.id by rw [result]]
    refine ⟨?_, fun slot => ?_⟩
    · rw [entryCount_recordAdded _ chains, state]
      split
      · rename_i same
        subst same
        exact admits.chainNodeCount_eq
      · exact mirrors.counts.trans (admits.count_frame _ ‹_›).symm
    · rw [state, liveAfter, livePicture_cons, ← mirrors.held]
      by_cases same : added.id = ⟨genesisHash, slot⟩
      · rw [if_pos same, ← same, admits.holds, admits.node_eq]
        rfl
      · rw [if_neg same, admits.frame _ (Ne.symm same)]
  | .updateNode shardConnId localId payload, _ => by
    simp only [State.step]
    refine mirrors.congr ?_ (by rw [updateNode_state]) (fun slot => by rw [updateNode_state])
      (livePicture_map (fun entry => by split <;> exact ⟨rfl, rfl⟩) live)
    rcases updateNode_cases (s := s) shardConnId localId payload with same | ⟨_, -, -, -, result⟩
    · rw [same]
    · rw [result]; exact (pendingPicture_updatePending _ _ _).2
  | .removeNode shardConnId localId, keeps => by
    simp only [State.step]
    have kept := removeNode_keeps_untargeted mapped shardConnId localId
    rcases removeNode_cases (s := s) shardConnId localId with ⟨unmapped, same⟩ | ⟨nodeId, nodeMapped, result⟩
    · rw [removalTargets_removeNode_of_unmapped unmapped] at kept
      rw [same]
      exact mirrors.congr rfl rfl (fun _ => rfl) (funext fun slot => by
        rw [liveAfter, livePicture_filter live kept slot, if_neg (List.not_mem_nil _)])
    · rw [removalTargets_removeNode_of_mapped nodeMapped] at kept
      simp only [KeepsChain, removalTargets_removeNode_of_mapped nodeMapped] at keeps
      rw [result]
      exact (mirrors.congr rfl rfl (fun _ => rfl) rfl :
        Mirrors genesisHash { s with nodeIds := (s.nodeIds.removeByRight (shardConnId, localId)).2 } live).removeNodes
        (List.nodup_singleton _) (by simpa using cons.mapped_held _ _ nodeMapped) keeps (livePicture_filter live kept)
  | .disconnectNode shardConnId, keeps =>
    mirrors.removeNodes (nodesOfConnection_targets cons).1 (nodesOfConnection_targets cons).2 keeps
      (livePicture_filter live (disconnectNode_keeps_untargeted mapped))
  | .updateNodeLocation nodeId location, _ => by
    simp only [State.step]
    refine mirrors.congr ?_ (by rw [updateNodeLocation_state, nodeCount_updateNodeLocation])
      (fun slot => ?_) ?_
    · rcases updateNodeLocation_cases (s := s) nodeId location with same | ⟨_, -, -, -, result⟩
      · rw [same]; rfl
      · rw [result]; exact (pendingPicture_updatePending _ _ _).2
    · rw [updateNodeLocation_state, node_updateNodeLocation]
      split
      · rename_i same
        rw [same, Option.map_map]
        rfl
      · rfl
    · cases location with
      | none => rfl
      | some loc => exact livePicture_map (fun entry => by split <;> exact ⟨rfl, rfl⟩) live
  | .drainUpdatesForAllFeeds, _ =>
    mirrors.congr (pendingPicture_map (f := ({ · with hasChainLabelChanged := false })) (fun _ => ⟨rfl, rfl, rfl⟩)
      (lookup_drainUpdatesForAllFeeds genesisHash)).2 rfl (fun _ => rfl) rfl
  | .drainChainUpdates, _ => by
    simp only [State.step]
    refine mirrors.congr pendingPicture_drainChainUpdates.2
      (by rw [drainChainUpdates_state, (drainState_sameShape _ _).count]) (fun slot => ?_)
      (livePicture_map (f := ({ · with delivered := [], located := [] })) (fun _ => ⟨rfl, rfl⟩) live)
    rw [node_drainChainUpdates cons, Option.map_map]
    exact Option.map_congr fun node _ => Node.details_foldl_absorb _ node
  | .updateAddedNodesMessages, _ => by
    simp only [State.step]
    exact mirrors.congr (pendingPicture_congr (by rw [updateAddedNodesMessages_chains])).2
      (by rw [updateAddedNodesMessages_state]) (fun _ => by rw [updateAddedNodesMessages_state]) rfl

end Mirrors

/-! ## The subscriber's invariant -/

/-- What ties a subscriber's picture `picture` of chain `genesisHash`, the one of the last drain,
to the wrapper and to the account: the chain's pending deltas, applied to the picture, give the
account's picture; and while the chain holds no node nothing is pending. -/
structure Tracks (genesisHash : BlockHash) (s : State) (live : List LiveNode) (picture : Picture) : Prop where
  pending : s.pendingPicture genesisHash picture = livePicture live genesisHash
  quiet : s.state.nodeCount genesisHash = 0 → s.pendingPicture genesisHash picture = picture

/-- An entry-free picture: when no entry of the chain holds added or removed nodes, nothing is pending. -/
theorem pendingPicture_of_empty (empty : ∀ updates, s.chains.lookup genesisHash = some updates →
    updates.addedNodes = ∅ ∧ updates.removedNodes = ∅) (picture : Picture) :
    s.pendingPicture genesisHash picture = picture := by
  cases found : s.chains.lookup genesisHash with
  | none => exact pendingPicture_of_none found picture
  | some updates =>
    funext slot
    rw [pendingPicture_of_lookup found, (empty updates found).1, (empty updates found).2]
    rfl

namespace Tracks

variable {live : List LiveNode} {picture : Picture} {pictures : BlockHash → Picture}

/-- A change that keeps the chain's pending picture, its count and the account's picture keeps
the invariant. -/
theorem congr (tracks : Tracks genesisHash s live picture) {s' : State} {live' : List LiveNode}
    (pending : s'.pendingPicture genesisHash = s.pendingPicture genesisHash)
    (count : s'.state.nodeCount genesisHash = s.state.nodeCount genesisHash)
    (same : livePicture live' genesisHash = livePicture live genesisHash) : Tracks genesisHash s' live' picture :=
  ⟨by rw [pending, same]; exact tracks.pending, fun zero => by rw [pending]; exact tracks.quiet (count ▸ zero)⟩

/-- A removal that takes the chain's targets out of the account, and none or fewer than all of
the chain's nodes, keeps the invariant. -/
theorem removeNodes (tracks : Tracks genesisHash s live picture) (send : s.sendNodeData = true)
    (counts : s.entryCount genesisHash = s.state.nodeCount genesisHash)
    {targets : List NodeId} (nodup : targets.Nodup) (held : ∀ target ∈ targets, (s.state.node target).isSome)
    (keeps : targets.filter (·.chain = genesisHash) = [] ∨
      (targets.filter (·.chain = genesisHash)).length < s.state.nodeCount genesisHash)
    {live' : List LiveNode}
    (dropped : ∀ slot, livePicture live' genesisHash slot =
      if ⟨genesisHash, slot⟩ ∈ targets then none else livePicture live genesisHash slot) :
    Tracks genesisHash (s.removeNodes targets) live' picture := by
  obtain ⟨-, -, count, -, pending⟩ := removeNodes_chain nodup held counts keeps
  have pictured := (pending send).pendingPicture
  refine ⟨funext fun slot => by rw [pictured, dropped, ← tracks.pending], fun zero => ?_⟩
  rcases keeps with none | fewer
  · rw [none, List.length_nil, Nat.add_zero, zero] at count
    funext slot
    have outside : (⟨genesisHash, slot⟩ : NodeId) ∉ targets := fun member =>
      List.not_mem_nil _ (none ▸ List.mem_filter.mpr ⟨member, by simp⟩)
    rw [pictured, if_neg outside, tracks.quiet count.symm]
  · omega

/-- A drain's chunks take the subscriber's picture to the account's. -/
theorem drain {located : Prop} (tracks : Tracks genesisHash s live (pictures genesisHash))
    (counts : s.entryCount genesisHash = s.state.nodeCount genesisHash) (cons : Consistent located s) :
    applyOutput pictures (.chainUpdates s.drainChainUpdates.2) genesisHash = livePicture live genesisHash := by
  rw [applyOutput_drainChainUpdates cons, ← tracks.pending]
  split
  · rfl
  · exact (tracks.quiet (counts ▸ not_not.mp ‹_›)).symm

/-- Every operation keeps the invariant, node data being sent, when the chain's entry counts its
nodes, each live node is mapped from its pair and a removal leaves the chain some of its nodes. -/
theorem step {located : Prop} (tracks : Tracks genesisHash s live (pictures genesisHash))
    (counts : s.entryCount genesisHash = s.state.nodeCount genesisHash)
    (cons : Consistent located s) (mapped : ∀ entry ∈ live, (entry.id, entry.pair) ∈ s.nodeIds.pairs)
    (send : s.sendNodeData = true) :
    ∀ op : Op, KeepsChain genesisHash s op →
      Tracks genesisHash (s.step op).1 (liveAfter live op (s.step op).2) (applyOutput pictures (s.step op).2 genesisHash)
  | .addNode g shardConnId localId details, _ => by
    simp only [State.step]
    rcases addNode_cases g shardConnId localId details with ⟨reason, result⟩ | ⟨added, st', admitted, result⟩
    · rw [result]
      exact tracks
    have admits := addNode_admits admitted
    have chains : (s.addNode g shardConnId localId details).1.chains =
        s.chains.entryOrDefault g (recordAdded true added) := by
      rw [result, send]
    have state : (s.addNode g shardConnId localId details).1.state = st' := by rw [result]
    rw [show (s.addNode g shardConnId localId details).2 = .ok added.id by rw [result]]
    refine ⟨funext fun slot => ?_, fun zero => funext fun slot => ?_⟩
    · rw [pendingPicture_recordAdded chains admits.chain_eq, liveAfter, livePicture_cons, ← tracks.pending,
        admits.node_eq]
      by_cases same : added.id = ⟨genesisHash, slot⟩
      · simp [same, Node.new]
      · simp only [same, if_false]
        rfl
    · rw [state] at zero
      by_cases same : g = genesisHash
      · subst same
        have more := admits.count_succ
        omega
      · rw [pendingPicture_recordAdded chains admits.chain_eq,
          if_neg fun here => same (admits.chain_eq.symm.trans (congrArg NodeId.chain here))]
        exact congrFun (tracks.quiet ((admits.count_frame _ (Ne.symm same)).symm.trans zero)) slot
  | .updateNode shardConnId localId payload, _ => by
    simp only [State.step]
    refine tracks.congr ?_ (by rw [updateNode_state])
      (livePicture_map (fun entry => by split <;> exact ⟨rfl, rfl⟩) live)
    rcases updateNode_cases (s := s) shardConnId localId payload with same | ⟨_, -, -, -, result⟩
    · rw [same]
    · rw [result]; exact (pendingPicture_updatePending _ _ _).1
  | .removeNode shardConnId localId, keeps => by
    simp only [State.step]
    have kept := removeNode_keeps_untargeted mapped shardConnId localId
    rcases removeNode_cases (s := s) shardConnId localId with ⟨unmapped, same⟩ | ⟨nodeId, nodeMapped, result⟩
    · rw [removalTargets_removeNode_of_unmapped unmapped] at kept
      rw [same]
      exact tracks.congr rfl rfl (funext fun slot => by
        rw [liveAfter, livePicture_filter live kept slot, if_neg (List.not_mem_nil _)])
    · rw [removalTargets_removeNode_of_mapped nodeMapped] at kept
      simp only [KeepsChain, removalTargets_removeNode_of_mapped nodeMapped] at keeps
      rw [result]
      exact (tracks.congr rfl rfl rfl :
        Tracks genesisHash { s with nodeIds := (s.nodeIds.removeByRight (shardConnId, localId)).2 } live _).removeNodes
        send counts (List.nodup_singleton _) (by simpa using cons.mapped_held _ _ nodeMapped) keeps
        (livePicture_filter live kept)
  | .disconnectNode shardConnId, keeps =>
    tracks.removeNodes send counts (nodesOfConnection_targets cons).1 (nodesOfConnection_targets cons).2 keeps
      (livePicture_filter live (disconnectNode_keeps_untargeted mapped))
  | .updateNodeLocation nodeId location, _ => by
    simp only [State.step]
    refine tracks.congr ?_ (by rw [updateNodeLocation_state, nodeCount_updateNodeLocation]) ?_
    · rcases updateNodeLocation_cases (s := s) nodeId location with same | ⟨_, -, -, -, result⟩
      · rw [same]; rfl
      · rw [result]; exact (pendingPicture_updatePending _ _ _).1
    · cases location with
      | none => rfl
      | some loc => exact livePicture_map (fun entry => by split <;> exact ⟨rfl, rfl⟩) live
  | .drainUpdatesForAllFeeds, _ =>
    tracks.congr (pendingPicture_map (f := ({ · with hasChainLabelChanged := false })) (fun _ => ⟨rfl, rfl, rfl⟩)
      (lookup_drainUpdatesForAllFeeds genesisHash)).1 rfl rfl
  | .drainChainUpdates, _ => by
    simp only [State.step]
    obtain ⟨pending, entry⟩ := @pendingPicture_drainChainUpdates s genesisHash
    have count : s.drainChainUpdates.1.state.nodeCount genesisHash = s.state.nodeCount genesisHash := by
      rw [drainChainUpdates_state, (drainState_sameShape _ _).count]
    have same : livePicture (liveAfter live .drainChainUpdates (.chainUpdates s.drainChainUpdates.2)) genesisHash =
        livePicture live genesisHash :=
      livePicture_map (f := ({ · with delivered := [], located := [] })) (fun _ => ⟨rfl, rfl⟩) live
    have sent := @applyOutput_drainChainUpdates s genesisHash _ cons pictures
    refine ⟨?_, fun zero => ?_⟩
    · rw [same, pending]
      split
      · exact tracks.drain counts cons
      · rw [sent, if_neg ‹_›]
        exact tracks.pending
    · have counted : ¬s.entryCount genesisHash ≠ 0 := by rw [counts, ← count, zero]; exact not_not.mpr rfl
      rw [pending, if_neg counted, sent, if_neg counted]
      exact tracks.quiet (count ▸ zero)
  | .updateAddedNodesMessages, _ => by
    simp only [State.step]
    exact tracks.congr (pendingPicture_congr (by rw [updateAddedNodesMessages_chains])).1
      (by rw [updateAddedNodesMessages_state]) rfl

end Tracks

end State

/-- A run `State::new` starts: no node live yet, and the state built from the loaded metadata. -/
theorem Run.start_some {denylist : List String} {maxThirdPartyNodes : Nat} {firstPartyNetworks : List BlockHash}
    {sendNodeData : Bool} {metadataPath : Option String} {stored : Option (Except String Metadata)} {run : Run}
    (started : Run.start denylist maxThirdPartyNodes firstPartyNetworks sendNodeData metadataPath stored = some run) :
    ∃ metadata : Metadata, run =
      ⟨{ state := OrdinaryState.new denylist maxThirdPartyNodes firstPartyNetworks
         chains := metadata.chains.mapValues (fun _ stored => { highestNodeCount := stored.highestNodeCount })
         nodeIds := ∅
         chainNodes := ∅
         removedChains := ∅
         sendNodeData
         metadata
         metadataPath }, []⟩ := by
  simp only [Run.start] at started
  split at started
  · cases started
    obtain ⟨metadata, rfl⟩ := State.new_ok ‹_›
    exact ⟨metadata, rfl⟩
  · cases started

/-- Along every run whose callers never add a mapped pair, whatever else they promise, every
live node is mapped from its pair. -/
theorem Reachable.live_mapped {allowed other : State → Op → Prop} {run : Run} (reach : Reachable allowed run)
    (promise : ∀ s op, allowed s op → FreshPairs s op ∧ other s op) :
    ∀ entry ∈ run.live, (entry.id, entry.pair) ∈ run.state.nodeIds.pairs := fun entry member =>
  (reach.liveOk (fun s op allowed => (promise s op allowed).1) entry member).mapped

/-- Along every run whose removals never take away all of chain `genesisHash`'s nodes, the
underlying state holds in the chain exactly the account's live nodes, and the chain's entry
counts them. -/
theorem Reachable.mirrors {allowed : State → Op → Prop} {genesisHash : BlockHash} {run : Run}
    (reach : Reachable allowed run)
    (promise : ∀ s op, allowed s op → FreshPairs s op ∧ LocatesHeld s op ∧ KeepsChain genesisHash s op) :
    State.Mirrors genesisHash run.state run.live := by
  induction reach with
  | start _ _ _ _ _ _ started =>
    obtain ⟨metadata, rfl⟩ := Run.start_some started
    refine ⟨?_, fun _ => rfl⟩
    simp only [State.entryCount, HashMap.lookup_mapValues]
    cases metadata.chains.lookup genesisHash <;> rfl
  | step earlier permitted mirrors =>
    exact mirrors.step earlier.consistent (earlier.live_mapped promise) _ (promise _ _ permitted).2.2

/-- Along every run whose removals never take away all of chain `genesisHash`'s nodes at once,
the underlying state holds in each slot of the chain the node the account has live there, with
its details, and nothing in a slot without one; and the chain's entry counts the chain's nodes. -/
theorem chain_holds_exactly_live_nodes {allowed : State → Op → Prop} {genesisHash : BlockHash} {run : Run}
    (reach : Reachable allowed run)
    (promise : ∀ s op, allowed s op → FreshPairs s op ∧ LocatesHeld s op ∧ KeepsChain genesisHash s op) :
    (∀ slot, (run.state.state.node ⟨genesisHash, slot⟩).map Node.details = livePicture run.live genesisHash slot) ∧
      run.state.entryCount genesisHash = run.state.state.nodeCount genesisHash :=
  ⟨(reach.mirrors promise).held, (reach.mirrors promise).counts⟩

theorem chain_holds_exactly_live_nodes_after_removal :
    let run := (Run.fresh [] 10 [] false).steps
      [.addNode 7 1 1 ⟨"A", "x"⟩, .addNode 7 2 1 ⟨"A", "y"⟩, .removeNode 1 1, .drainChainUpdates]
    (∀ slot, (run.state.state.node ⟨7, slot⟩).map Node.details = livePicture run.live 7 slot) ∧
      run.state.entryCount 7 = run.state.state.nodeCount 7 :=
  chain_holds_exactly_live_nodes (Reachable.steps _ (Reachable.fresh [] 10 [] false :
    Reachable (fun s op => FreshPairs s op ∧ LocatesHeld s op ∧ KeepsChain 7 s op) _) (by decide)) (fun _ _ => id)

/-- Along every run whose removals never take away all of chain `genesisHash`'s nodes, node
data being sent, a subscriber watching from the start keeps the invariant with its picture. -/
theorem Watched.Reachable.tracks {allowed : State → Op → Prop} {genesisHash : BlockHash} {watched : Watched}
    (reach : Watched.Reachable allowed watched)
    (promise : ∀ s op, allowed s op → FreshPairs s op ∧ LocatesHeld s op ∧ KeepsChain genesisHash s op)
    (send : watched.run.state.sendNodeData = true) :
    State.Tracks genesisHash watched.run.state watched.run.live (watched.picture genesisHash) := by
  induction reach with
  | start _ _ _ _ _ _ started =>
    obtain ⟨metadata, rfl⟩ := Run.start_some started
    have empty : ∀ updates, (metadata.chains.mapValues fun _ stored =>
        ({ highestNodeCount := stored.highestNodeCount } : ChainUpdates)).lookup genesisHash = some updates →
        updates.addedNodes = ∅ ∧ updates.removedNodes = ∅ := fun updates found => by
      rw [HashMap.lookup_mapValues, Option.map_eq_some'] at found
      obtain ⟨_, _, rfl⟩ := found
      exact ⟨rfl, rfl⟩
    exact ⟨by rw [State.pendingPicture_of_empty empty]; rfl, fun _ => State.pendingPicture_of_empty empty _⟩
  | step earlier permitted ih =>
    have sent : _ = true := (State.step_sendNodeData _).symm.trans send
    exact (ih sent).step (earlier.run.mirrors promise).counts earlier.run.consistent (earlier.run.live_mapped promise)
      sent _ (promise _ _ permitted).2.2

/-- After every drain of a run whose removals never take away all of chain `genesisHash`'s
nodes, node data being sent, a subscriber that has applied every drain's chunks from the start
shows in each slot of the chain the details of the live node in it, and nothing in a slot without
one. -/
theorem subscriber_sees_live_nodes {allowed : State → Op → Prop} {genesisHash : BlockHash} {watched : Watched}
    (reach : Watched.Reachable allowed watched)
    (promise : ∀ s op, allowed s op → FreshPairs s op ∧ LocatesHeld s op ∧ KeepsChain genesisHash s op)
    (send : watched.run.state.sendNodeData = true) :
    (watched.step .drainChainUpdates).picture genesisHash =
      livePicture (watched.step .drainChainUpdates).run.live genesisHash :=
  ((reach.tracks promise send).drain (reach.run.mirrors promise).counts reach.run.consistent).trans
    (livePicture_map (f := ({ · with delivered := [], located := [] })) (fun _ => ⟨rfl, rfl⟩) _).symm

theorem subscriber_sees_live_nodes_after_removal :
    let watched := ({ run := Run.fresh [] 10 [] true, picture := fun _ _ => none } : Watched).steps
      [.addNode 7 1 1 ⟨"A", "x"⟩, .addNode 7 2 1 ⟨"A", "y"⟩, .drainChainUpdates, .removeNode 1 1]
    (watched.step .drainChainUpdates).picture 7 = livePicture (watched.step .drainChainUpdates).run.live 7 :=
  subscriber_sees_live_nodes (Watched.Reachable.steps _ (Watched.Reachable.fresh [] 10 [] true :
    Watched.Reachable (fun s op => FreshPairs s op ∧ LocatesHeld s op ∧ KeepsChain 7 s op) _) (by decide))
    (fun _ _ => id) (by decide)

end TelemetryCore
