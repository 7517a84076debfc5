import TelemetryCore.Joining

namespace TelemetryCore

/-!
# What a subscriber holds of each node

`Feed` follows which nodes a subscriber shows; this module follows what it holds of each of them.
A feed builds a node's record from the chunks of `drain_chain_updates` alone: an `AddedNode`
carries the record the node was admitted with, a `LocatedNode` puts a location on it, and each
replayed payload changes it as it changes the underlying state's record.  A subscriber that
applies every drain's chunks from `State::new` on holds, right after each drain, exactly the
underlying state's record of every node of the chain.

The payloads are replayed into the underlying state and into the chunks by the same loop, so
both records absorb them in the same order.  The location is the exception.
`update_node_location` writes the location into the underlying state at once and also stores it
with the node's updates, to be sent with the next drain.  Between drains the two records
therefore differ by the stored updates.  What ties them together is the chain's pending deltas
applied to the subscriber's records (`pendingRecords`): the added nodes' records, the removed
slots emptied, and each stored location put on its record.  This must equal the underlying
state's records (`Synced`).

What is assumed, beside `Feed`'s promises and node data being sent: `update_node_location` is
only given a location the locator found (`LocatesFound`).  Given `None`, it clears the location
in the underlying state but stores nothing to send, so the subscriber keeps the old location.
-/

/-- A subscriber's records of one chain: the record of the node it shows in each slot. -/
abbrev Records := Nat → Option Node

/-- A record with a location put on it, when one is given. -/
def Node.relocate (node : Node) : Location → Node
  | none => node
  | some loc => { node with location := some loc }

/-- A record with a node's stored updates replayed on it, in the order of the chunks: the
location, then the payloads. -/
def Node.replay (node : Node) (updates : NodeUpdates) : Node :=
  updates.payloads.foldl Node.absorb (node.relocate updates.location)

/-- How a subscriber takes one message about a node: `RemovedNode` empties the slot, `AddedNode`
holds the record it carries, and the other messages change the held record as the underlying
state's record changes. -/
def applyRecordMessage (records : Records) : FeedMessage → Records
  | .removedNode slot => Function.update records slot none
  | .addedNode slot node => Function.update records slot (some node)
  | .locatedNode slot latitude longitude city =>
    Function.update records slot ((records slot).map (·.relocate (some ⟨latitude, longitude, city⟩)))
  | .finalizedBlock slot height hash =>
    Function.update records slot ((records slot).map ({ · with finalized := ⟨hash, height⟩ }))
  | .staleNode slot => Function.update records slot ((records slot).map ({ · with stale := true }))
  | .nodeUpdated slot payload => Function.update records slot ((records slot).map (·.absorb payload))
  | _ => records

/-- A subscriber's records of chain `genesisHash` once an operation's output reaches it: the
chunks of `drain_chain_updates` for the chain, in order. -/
def applyRecordOutput (genesisHash : BlockHash) (records : Records) : Output → Records
  | .chainUpdates updates => (chainMessages updates genesisHash).foldl applyRecordMessage records
  | _ => records

/-- The records of chain `genesisHash` held by a subscriber that takes the output of every
operation of `ops`, from `run` on. -/
def Run.records (genesisHash : BlockHash) : Run → List Op → Records → Records
  | _, [], records => records
  | run, op :: ops, records =>
    Run.records genesisHash (run.step op).1 ops (applyRecordOutput genesisHash records (run.step op).2)

/-- The records of chain `genesisHash` a new subscriber assembles from the roster it is sent,
starting from nothing. -/
def rosterRecords (s : State) (genesisHash : BlockHash) : Records :=
  ((s.addedNodesMessages genesisHash).getD []).flatten.foldl applyRecordMessage fun _ => none

/-- The callers' promise that `update_node_location` is only given a location the locator
found. -/
def LocatesFound : Op → Prop
  | .updateNodeLocation _ location => location.isSome
  | _ => True

instance : (op : Op) → Decidable (LocatesFound op)
  | .updateNodeLocation _ location => inferInstanceAs (Decidable (location.isSome = true))
  | .addNode .. | .updateNode .. | .removeNode .. | .disconnectNode _ | .drainUpdatesForAllFeeds
  | .drainChainUpdates | .updateAddedNodesMessages => isTrue trivial

/-! ## Messages -/

section Messages

variable {genesisHash : BlockHash}

@[simp] theorem Node.relocate_none (node : Node) : node.relocate none = node := rfl

@[simp] theorem Node.relocate_some (node : Node) (location : Location) (loc : NodeLocation) :
    (node.relocate location).relocate (some loc) = node.relocate (some loc) := by
  cases location <;> rfl

@[simp] theorem Node.relocate_relocate (node : Node) (location : Location) :
    (node.relocate location).relocate location = node.relocate location := by
  cases location <;> rfl

@[simp] theorem Node.replay_default (node : Node) : node.replay default = node := rfl

@[simp] theorem NodeUpdates.location_record (updates : NodeUpdates) (payload : Payload) :
    (updates.record payload).location = updates.location := by
  cases payload <;> rfl

theorem NodeUpdates.location_getD (pending : Option NodeUpdates) :
    (pending.getD default).location = pending.bind NodeUpdates.location := by
  cases pending <;> rfl

theorem applyRecordMessage_fillsSlots : FillsSlots applyRecordMessage id := ⟨fun _ _ => rfl, fun _ _ _ => rfl⟩

/-- A node's replayed payloads, one `NodeUpdated` each, are absorbed by its record in order. -/
theorem foldl_applyRecordMessage_nodeUpdated (slot : Nat) :
    ∀ (payloads : List Payload) (records : Records),
      (payloads.map (.nodeUpdated slot)).foldl applyRecordMessage records =
        Function.update records slot ((records slot).map fun node => payloads.foldl Node.absorb node)
  | [], records => by simp
  | payload :: rest, records => by
    rw [List.map_cons, List.foldl_cons, foldl_applyRecordMessage_nodeUpdated slot rest]
    simp [applyRecordMessage, Option.map_map, Function.comp_def]

/-- The replay of a held node's stored updates replays them on its record. -/
theorem foldl_applyRecordMessage_replayMessages {st : OrdinaryState} {nodeId : NodeId}
    (held : (st.node nodeId).isSome) (updates : NodeUpdates) (records : Records) :
    (State.replayMessages st nodeId updates).foldl applyRecordMessage records =
      Function.update records nodeId.slot ((records nodeId.slot).map (·.replay updates)) := by
  rw [State.replayMessages, if_pos held, List.foldl_append, foldl_applyRecordMessage_nodeUpdated]
  cases location : updates.location with
  | none => simp [Node.replay, location]
  | some loc => simp [applyRecordMessage, Node.replay, location, Option.map_map, Function.comp_def]

/-- The replays of a chain's stored updates, one keyed entry per held node, replay each node's
updates on its record. -/
theorem foldl_applyRecordMessage_replays {st : OrdinaryState} :
    ∀ (entries : List (Σ _ : NodeId, NodeUpdates)) (records : Records), entries.NodupKeys →
      (∀ entry ∈ entries, entry.1.chain = genesisHash ∧ (st.node entry.1).isSome) → ∀ slot,
      (entries.flatMap fun entry => State.replayMessages st entry.1 entry.2).foldl applyRecordMessage records slot =
        (records slot).map (·.replay ((entries.dlookup ⟨genesisHash, slot⟩).getD default))
  | [], records, _, _, slot => by simp [Option.map_id']
  | ⟨nodeId, updates⟩ :: rest, records, nodup, chained, slot => by
    rw [List.nodupKeys_cons] at nodup
    have here := chained _ (List.mem_cons_self _ _)
    rw [List.flatMap_cons, List.foldl_append, foldl_applyRecordMessage_replayMessages here.2,
      foldl_applyRecordMessage_replays rest _ nodup.2
        (fun entry member => chained entry (List.mem_cons_of_mem _ member))]
    by_cases same : nodeId = ⟨genesisHash, slot⟩
    · subst same
      simp [List.dlookup_cons_eq, List.dlookup_eq_none.mpr nodup.1, Function.comp_def]
    · have otherSlot : slot ≠ nodeId.slot := fun sameSlot => same (nodeId_eq here.1 sameSlot.symm)
      simp [Function.update_noteq otherSlot, List.dlookup_cons_ne rest ⟨nodeId, updates⟩ (Ne.symm same)]

/-- The chunks `drain_chain_updates` sends a chain with a fitting entry whose updated nodes are
held: the removed slots emptied, the added nodes' records, and each node's stored updates
replayed on its record. -/
theorem foldl_applyRecordMessage_chainUpdateMessages {located : Prop} {st : OrdinaryState} {sendNodeData : Bool}
    {updates : ChainUpdates} (ok : State.EntryOk located st sendNodeData genesisHash updates) (holds : located)
    (records : Records) (slot : Nat) :
    (State.chainUpdateMessages st updates).foldl applyRecordMessage records slot =
      ((updates.addedNodes.lookup ⟨genesisHash, slot⟩).or
        (if ⟨genesisHash, slot⟩ ∈ updates.removedNodes then none else records slot)).map
          (·.replay ((updates.updatedNodes.lookup ⟨genesisHash, slot⟩).getD default)) := by
  rw [State.chainUpdateMessages, List.foldl_append,
    foldl_applyRecordMessage_replays _ _ updates.updatedNodes.nodupKeys fun entry member =>
      have inKeys := AList.mem_keys.mp (List.mem_keys_of_mem member)
      ⟨(ok.updated entry.1 inKeys).1, ok.updated_held holds entry.1 inKeys⟩,
    List.foldl_append, applyRecordMessage_fillsSlots.foldl_added _ _ updates.addedNodes.nodupKeys
      (fun entry member => (ok.added entry.1 (AList.mem_keys.mp (List.mem_keys_of_mem member))).1),
    applyRecordMessage_fillsSlots.foldl_removed _ _ (fun nodeId member => (ok.removed nodeId member).1),
    Option.map_id, id]
  rfl

/-- A roster entry holds its node's record in its slot: the finalized block and the staleness it
adds are the record's own. -/
theorem foldl_applyRecordMessage_rosterMessages (slot : Nat) (node : Node) (records : Records) :
    (State.rosterMessages slot node).foldl applyRecordMessage records = Function.update records slot (some node) := by
  unfold State.rosterMessages
  cases stale : node.stale <;> simp [applyRecordMessage, stale] <;> rw [← stale]

/-- With node data sent, the rosters `update_added_nodes_messages` builds hold, chain by chain,
the underlying state's record of the node in each slot. -/
theorem rosterRecords_updateAddedNodesMessages {s : State} (send : s.sendNodeData = true)
    (genesisHash : BlockHash) (slot : Nat) :
    rosterRecords s.updateAddedNodesMessages genesisHash slot = s.state.node ⟨genesisHash, slot⟩ :=
  (foldl_roster_updateAddedNodesMessages foldl_applyRecordMessage_rosterMessages send genesisHash slot).trans
    (congrFun Option.map_id _)

end Messages

theorem Run.steps_append : ∀ (run : Run) (ops more : List Op), run.steps (ops ++ more) = (run.steps ops).steps more
  | _, [], _ => rfl
  | _, _ :: ops, more => Run.steps_append _ ops more

theorem Run.records_append (genesisHash : BlockHash) : ∀ (run : Run) (ops more : List Op) (records : Records),
    run.records genesisHash (ops ++ more) records =
      (run.steps ops).records genesisHash more (run.records genesisHash ops records)
  | _, [], _, _ => rfl
  | _, _ :: ops, more, _ => Run.records_append genesisHash _ ops more _

/-! ## The wrapper's pending deltas, as records -/

namespace State

open OrdinaryState

variable {s : State} {genesisHash : BlockHash}

/-- The location stored with a node's updates, if any. -/
def pendingLocation (s : State) (nodeId : NodeId) : Location :=
  (s.pendingUpdates nodeId).bind NodeUpdates.location

/-- The records a subscriber holding `records` reaches once chain `genesisHash`'s pending added
and removed nodes are sent. -/
def pendingNodes (s : State) (genesisHash : BlockHash) (records : Records) : Records := fun slot =>
  (s.pendingAdded ⟨genesisHash, slot⟩).or (if s.pendingRemoved ⟨genesisHash, slot⟩ then none else records slot)

/-- The records a subscriber holding `records` reaches once chain `genesisHash`'s pending deltas
are sent, before their payloads are replayed: the added nodes' records, the removed slots
emptied, and each stored location put on its record. -/
def pendingRecords (s : State) (genesisHash : BlockHash) (records : Records) : Records := fun slot =>
  (s.pendingNodes genesisHash records slot).map (·.relocate (s.pendingLocation ⟨genesisHash, slot⟩))

theorem pendingRecords_of_lookup {updates : ChainUpdates} (found : s.chains.lookup genesisHash = some updates)
    (records : Records) (slot : Nat) :
    s.pendingRecords genesisHash records slot =
      ((updates.addedNodes.lookup ⟨genesisHash, slot⟩).or
        (if ⟨genesisHash, slot⟩ ∈ updates.removedNodes then none else records slot)).map
          (·.relocate ((updates.updatedNodes.lookup ⟨genesisHash, slot⟩).bind NodeUpdates.location)) := by
  simp [pendingRecords, pendingNodes, pendingLocation, pendingAdded, pendingRemoved, pendingUpdates, found]

/-- A chain's pending records read the chain's entry only. -/
theorem pendingRecords_congr {s' : State} (same : s'.chains.lookup genesisHash = s.chains.lookup genesisHash) :
    s'.pendingRecords genesisHash = s.pendingRecords genesisHash := by
  funext records slot
  obtain ⟨added, removed, updated⟩ :=
    pending_of_lookup same (show (⟨genesisHash, slot⟩ : NodeId).chain = genesisHash from rfl)
  simp only [pendingRecords, pendingNodes, pendingLocation, added, removed, updated]

/-- With no delta in the chain's entry, nothing is pending. -/
theorem pendingRecords_of_empty (empty : ∀ updates, s.chains.lookup genesisHash = some updates →
    updates.addedNodes = ∅ ∧ updates.removedNodes = ∅ ∧ updates.updatedNodes = ∅) (records : Records) :
    s.pendingRecords genesisHash records = records := by
  funext slot
  cases found : s.chains.lookup genesisHash with
  | none => simp [pendingRecords, pendingNodes, pendingLocation, pendingAdded, pendingRemoved, pendingUpdates, found]
  | some updates =>
    obtain ⟨added, removed, updated⟩ := empty updates found
    rw [pendingRecords_of_lookup found, added, removed, updated]
    cases records slot <;> rfl

/-- Rewriting each entry without touching its deltas keeps every chain's pending records. -/
theorem pendingRecords_map {s' : State} {f : ChainUpdates → ChainUpdates}
    (keeps : ∀ updates, (f updates).addedNodes = updates.addedNodes ∧
      (f updates).removedNodes = updates.removedNodes ∧ (f updates).updatedNodes = updates.updatedNodes)
    (lookup : s'.chains.lookup genesisHash = (s.chains.lookup genesisHash).map f) :
    s'.pendingRecords genesisHash = s.pendingRecords genesisHash := by
  cases found : s.chains.lookup genesisHash with
  | none => rw [found] at lookup; exact pendingRecords_congr (lookup.trans found.symm)
  | some updates =>
    rw [found, Option.map_some'] at lookup
    funext records slot
    obtain ⟨added, removed, updated⟩ := keeps updates
    rw [pendingRecords_of_lookup lookup, pendingRecords_of_lookup found, added, removed, updated]

theorem pendingRemoved_updatePending (g : BlockHash) (target : NodeId) (f : NodeUpdates → NodeUpdates)
    (nodeId : NodeId) : (s.updatePending g target f).pendingRemoved nodeId = s.pendingRemoved nodeId := by
  simp only [pendingRemoved, lookup_updatePending]
  split
  · rename_i same
    rw [same]
    cases s.chains.lookup g <;> rfl
  · rfl

theorem pendingUpdates_updatePending_self (target : NodeId) (f : NodeUpdates → NodeUpdates) :
    (s.updatePending target.chain target f).pendingUpdates target =
      some (f ((s.pendingUpdates target).getD default)) := by
  simp only [pendingUpdates, lookup_updatePending, if_true, Option.some_bind, HashMap.lookup_entryOrDefault]
  cases s.chains.lookup target.chain <;> rfl

/-- Storing a node's updates changes its pending record by the location stored, and no other
pending record. -/
theorem pendingRecords_updatePending (target : NodeId) (f : NodeUpdates → NodeUpdates) (records : Records)
    (slot : Nat) :
    (s.updatePending target.chain target f).pendingRecords genesisHash records slot =
      if target = ⟨genesisHash, slot⟩ then
        (s.pendingNodes genesisHash records slot).map (·.relocate (f ((s.pendingUpdates target).getD default)).location)
      else s.pendingRecords genesisHash records slot := by
  have nodes : (s.updatePending target.chain target f).pendingNodes genesisHash records slot =
      s.pendingNodes genesisHash records slot := by
    simp only [pendingNodes, pendingAdded_updatePending, pendingRemoved_updatePending]
  rw [pendingRecords, nodes]
  split
  · rename_i same
    subst same
    rw [pendingLocation, pendingUpdates_updatePending_self, Option.some_bind]
  · rw [pendingLocation, pendingUpdates_updatePending_ne _ _ (Ne.symm ‹_›)]
    rfl

/-- A stored update that keeps the stored location keeps every pending record. -/
theorem pendingRecords_updatePending_of_location {target : NodeId} {f : NodeUpdates → NodeUpdates}
    (keeps : ∀ updates, (f updates).location = updates.location) :
    (s.updatePending target.chain target f).pendingRecords genesisHash = s.pendingRecords genesisHash := by
  funext records slot
  rw [pendingRecords_updatePending]
  split
  · rename_i same
    rw [keeps, NodeUpdates.location_getD, pendingRecords, pendingLocation, same]
  · rfl

/-- A node the underlying state does not hold has no stored updates, when only held nodes are
located. -/
theorem pendingUpdates_eq_none {located : Prop} (cons : Consistent located s) (holds : located) {nodeId : NodeId}
    (free : s.state.node nodeId = none) : s.pendingUpdates nodeId = none := by
  cases found : s.chains.lookup nodeId.chain with
  | none => simp [pendingUpdates, found]
  | some updates =>
    simp only [pendingUpdates, found, Option.some_bind]
    exact AList.lookup_eq_none.mpr fun member => by
      simpa [free] using (cons.entries _ _ found).updated_held holds nodeId member

/-- Recording an admission, node data being sent, shows the admission record in its slot, with
the location stored for the node, if any. -/
theorem pendingRecords_recordAdded {s' : State} {g : BlockHash} {added : NodeAddedToChain}
    (chains : s'.chains = s.chains.entryOrDefault g (recordAdded true added)) (chain : added.id.chain = g)
    (records : Records) (slot : Nat) :
    s'.pendingRecords genesisHash records slot =
      if added.id = ⟨genesisHash, slot⟩ then some (added.node.relocate (s.pendingLocation added.id))
      else s.pendingRecords genesisHash records slot := by
  have updated : ∀ nodeId, s'.pendingUpdates nodeId = s.pendingUpdates nodeId := fun nodeId => by
    rw [pendingUpdates, chains]
    exact pendingUpdates_entryOrDefault (recordAdded_updatedNodes true added) nodeId
  simp only [pendingRecords, pendingLocation, updated]
  split
  · rename_i same
    have entry : s'.chains.lookup added.id.chain =
        some (recordAdded true added ((s.chains.lookup g).getD default)) := by
      rw [chains, chain, HashMap.lookup_entryOrDefault]
    have shown : s'.pendingNodes genesisHash records slot = some added.node := by
      rw [pendingNodes, ← same, pendingAdded, entry, Option.some_bind, recordAdded_addedNodes, if_pos rfl,
        AList.lookup_insert]
      rfl
    rw [shown, ← same]
    rfl
  · rename_i different
    have elsewhere : (⟨genesisHash, slot⟩ : NodeId) ≠ added.id := Ne.symm different
    have removed : s'.pendingRemoved ⟨genesisHash, slot⟩ = s.pendingRemoved ⟨genesisHash, slot⟩ := by
      simp only [pendingRemoved, chains, HashMap.lookup_entryOrDefault_eq]
      split
      · rename_i here
        subst here
        cases s.chains.lookup genesisHash <;> simp [recordAdded_removedNodes, elsewhere]
        exact HashSet.not_mem_empty _
      · rfl
    have addedHere : s'.pendingAdded ⟨genesisHash, slot⟩ = s.pendingAdded ⟨genesisHash, slot⟩ := by
      rw [pendingAdded, chains]
      exact pendingAdded_recordAdded true elsewhere
    simp only [pendingNodes, removed, addedHere]

/-- The targets' slots leave the chain's pending records. -/
theorem RemovesPending.pendingRecords {targets : List NodeId} {s' : State}
    (removes : RemovesPending genesisHash targets s s') (records : Records) (slot : Nat) :
    s'.pendingRecords genesisHash records slot =
      if ⟨genesisHash, slot⟩ ∈ targets then none else s.pendingRecords genesisHash records slot := by
  rw [State.pendingRecords, State.pendingRecords, pendingNodes, pendingNodes, pendingLocation, pendingLocation,
    removes.added ⟨genesisHash, slot⟩ rfl, removes.removed ⟨genesisHash, slot⟩ rfl,
    removes.updated ⟨genesisHash, slot⟩ rfl]
  by_cases member : (⟨genesisHash, slot⟩ : NodeId) ∈ targets <;> simp [member]

/-- A drain sends the pending deltas of every chain whose entry counts nodes, and keeps the
others'. -/
theorem pendingRecords_drainChainUpdates :
    s.drainChainUpdates.1.pendingRecords genesisHash =
      if s.entryCount genesisHash ≠ 0 then fun records => records else s.pendingRecords genesisHash := by
  have lookup := lookup_drainChainUpdates (s := s) genesisHash
  cases found : s.chains.lookup genesisHash with
  | none =>
    rw [found] at lookup
    simpa [entryCount, found] using pendingRecords_congr (lookup.trans found.symm)
  | some updates =>
    rw [found, Option.map_some'] at lookup
    by_cases counted : updates.nodeCount ≠ 0
    · rw [if_pos counted] at lookup
      rw [if_pos (by simpa [entryCount, found] using counted)]
      exact funext (pendingRecords_of_empty fun _ entry => by
        rw [lookup] at entry
        cases entry
        exact ⟨rfl, rfl, rfl⟩)
    · rw [if_neg counted] at lookup
      rw [if_neg (by simpa [entryCount, found] using counted)]
      exact pendingRecords_congr (lookup.trans found.symm)

/-- A drain replays into each node of a chain whose entry counts nodes the payloads stored for
it, and leaves the nodes of the other chains as they are. -/
theorem node_drainChainUpdates_chain {located : Prop} (cons : Consistent located s) (slot : Nat) :
    s.drainChainUpdates.1.state.node ⟨genesisHash, slot⟩ =
      if s.entryCount genesisHash ≠ 0 then
        (s.state.node ⟨genesisHash, slot⟩).map fun node =>
          ((s.pendingUpdates ⟨genesisHash, slot⟩).getD default).payloads.foldl Node.absorb node
      else s.state.node ⟨genesisHash, slot⟩ := by
  have nodup := s.chains.nodupKeys.sublist
    (List.filter_sublist (p := fun entry : Σ _ : BlockHash, ChainUpdates => decide (entry.2.nodeCount ≠ 0)) _)
  have filed : ∀ updates, updates ∈ (s.chains.entries.filter fun entry => entry.2.nodeCount ≠ 0).dlookup genesisHash ↔
      s.chains.lookup genesisHash = some updates ∧ updates.nodeCount ≠ 0 := fun updates => by
    rw [List.mem_dlookup_iff nodup, List.mem_filter, ← AList.mem_lookup_iff, Option.mem_def, decide_eq_true_iff]
  rw [node_drainChainUpdates cons, drainedPayloads]
  dsimp only
  by_cases counted : s.entryCount genesisHash ≠ 0
  · cases found : s.chains.lookup genesisHash with
    | none => simp [entryCount, found] at counted
    | some updates =>
      have nonzero : updates.nodeCount ≠ 0 := by simpa [entryCount, found] using counted
      rw [if_pos counted, Option.mem_def.mp ((filed updates).mpr ⟨found, nonzero⟩), Option.map_some',
        Option.getD_some, pendingPayloads_entries, pendingUpdates, found, Option.some_bind]
  · have unfiled : (s.chains.entries.filter fun entry => entry.2.nodeCount ≠ 0).dlookup genesisHash = none :=
      Option.eq_none_iff_forall_not_mem.mpr fun updates member => counted (by
        obtain ⟨found, nonzero⟩ := (filed updates).mp member
        simpa [entryCount, found] using nonzero)
    rw [if_neg counted, unfiled]
    simp

/-- What a subscriber's records of a chain become when a drain's chunks reach it, when only held
nodes are located. -/
theorem applyRecordOutput_drainChainUpdates {located : Prop} (cons : Consistent located s) (holds : located)
    (records : Records) (slot : Nat) :
    applyRecordOutput genesisHash records (.chainUpdates s.drainChainUpdates.2) slot =
      if s.entryCount genesisHash ≠ 0 then
        (s.pendingRecords genesisHash records slot).map fun node =>
          ((s.pendingUpdates ⟨genesisHash, slot⟩).getD default).payloads.foldl Node.absorb node
      else records slot := by
  simp only [applyRecordOutput, chainMessages_drainChainUpdates]
  cases found : s.chains.lookup genesisHash with
  | none => simp [entryCount, found]
  | some updates =>
    by_cases counted : updates.nodeCount ≠ 0
    · simp only [Option.map_some', Option.getD_some, if_pos counted, entryCount, found]
      rw [foldl_applyRecordMessage_chainUpdateMessages (cons.entries _ _ found) holds, pendingRecords_of_lookup found,
        Option.map_map, pendingUpdates, found, Option.some_bind]
      congr
      funext node
      rw [Function.comp_apply, Node.replay, NodeUpdates.location_getD]
    · have zero : updates.nodeCount = 0 := not_not.mp counted
      simp [entryCount, found, zero]

/-- A chain that holds a node counts it. -/
theorem nodeCount_ne_zero_of_node {st : OrdinaryState} {nodeId : NodeId} (held : (st.node nodeId).isSome) :
    st.nodeCount nodeId.chain ≠ 0 := fun zero => by
  cases found : st.chains.lookup nodeId.chain with
  | none => simp [OrdinaryState.node, found] at held
  | some chain =>
    have empty : chain.nodes.countP Option.isSome = 0 := by
      simpa [OrdinaryState.nodeCount, found, Chain.nodeCount] using zero
    simp [OrdinaryState.node, found, Chain.node, slotNode_eq_none_of_countP_eq_zero empty] at held

/-- The pending deltas overlay records: applying them twice is applying them once. -/
theorem pendingRecords_pendingRecords (records : Records) :
    s.pendingRecords genesisHash (s.pendingRecords genesisHash records) = s.pendingRecords genesisHash records := by
  funext slot
  simp only [pendingRecords, pendingNodes]
  cases s.pendingAdded ⟨genesisHash, slot⟩ <;> cases s.pendingRemoved ⟨genesisHash, slot⟩ <;>
    simp [Option.map_map, Function.comp_def]

/-! ## The subscriber's invariant -/

/-- What ties a subscriber's records of chain `genesisHash`, those of the last drain, to the
underlying state: the chain's pending deltas, applied to the records, give the underlying
state's records; and while the chain holds no node nothing is pending. -/
structure Synced (genesisHash : BlockHash) (s : State) (records : Records) : Prop where
  pending : ∀ slot, s.pendingRecords genesisHash records slot = s.state.node ⟨genesisHash, slot⟩
  quiet : s.state.nodeCount genesisHash = 0 → s.pendingRecords genesisHash records = records

namespace Synced

variable {records : Records}

/-- A change that keeps the chain's pending records, its count and its nodes keeps the
invariant. -/
theorem congr (synced : Synced genesisHash s records) {s' : State}
    (pending : s'.pendingRecords genesisHash = s.pendingRecords genesisHash)
    (count : s'.state.nodeCount genesisHash = s.state.nodeCount genesisHash)
    (nodes : ∀ slot, s'.state.node ⟨genesisHash, slot⟩ = s.state.node ⟨genesisHash, slot⟩) :
    Synced genesisHash s' records :=
  ⟨fun slot => by rw [pending, nodes]; exact synced.pending slot,
    fun zero => by rw [pending]; exact synced.quiet (count ▸ zero)⟩

/-- A removal of distinct held nodes, none or fewer than all of the chain's, keeps the
invariant. -/
theorem removeNodes (synced : Synced genesisHash s records) (send : s.sendNodeData = true)
    (counts : s.entryCount genesisHash = s.state.nodeCount genesisHash)
    {targets : List NodeId} (nodup : targets.Nodup) (held : ∀ target ∈ targets, (s.state.node target).isSome)
    (keeps : targets.filter (·.chain = genesisHash) = [] ∨
      (targets.filter (·.chain = genesisHash)).length < s.state.nodeCount genesisHash) :
    Synced genesisHash (s.removeNodes targets) records := by
  obtain ⟨gone, -, count, -, pending⟩ := removeNodes_chain nodup held counts keeps
  have recorded := (pending send).pendingRecords records
  refine ⟨fun slot => by rw [recorded, gone _ rfl, synced.pending], fun zero => ?_⟩
  rcases keeps with none | fewer
  · rw [none, List.length_nil, Nat.add_zero, zero] at count
    funext slot
    have outside : (⟨genesisHash, slot⟩ : NodeId) ∉ targets := fun member =>
      List.not_mem_nil _ (none ▸ List.mem_filter.mpr ⟨member, by simp⟩)
    rw [recorded, if_neg outside, synced.quiet count.symm]
  · omega

/-- A drain's chunks take the subscriber's records to the underlying state's records after the
drain. -/
theorem drain {located : Prop} (synced : Synced genesisHash s records)
    (counts : s.entryCount genesisHash = s.state.nodeCount genesisHash) (cons : Consistent located s)
    (holds : located) (slot : Nat) :
    applyRecordOutput genesisHash records (.chainUpdates s.drainChainUpdates.2) slot =
      s.drainChainUpdates.1.state.node ⟨genesisHash, slot⟩ := by
  rw [applyRecordOutput_drainChainUpdates cons holds, node_drainChainUpdates_chain cons, synced.pending]
  split
  · rfl
  · rename_i zero
    exact (congrFun (synced.quiet (counts ▸ not_not.mp zero)) slot).symm.trans (synced.pending slot)

/-- Every operation keeps the invariant, node data being sent, when the chain's entry counts its
nodes, only held nodes are located, with a location found, and a removal leaves the chain some
of its nodes. -/
theorem step {located : Prop} (synced : Synced genesisHash s records)
    (counts : s.entryCount genesisHash = s.state.nodeCount genesisHash)
    (cons : Consistent located s) (holds : located) (send : s.sendNodeData = true) :
    ∀ op : Op, KeepsChain genesisHash s op → LocatesHeld s op → LocatesFound op →
      Synced genesisHash (s.step op).1 (applyRecordOutput genesisHash records (s.step op).2)
  | .addNode g shardConnId localId details, _, _, _ => by
    simp only [State.step, applyRecordOutput]
    rcases addNode_cases g shardConnId localId details with ⟨reason, result⟩ | ⟨added, st', admitted, result⟩
    · rw [result]
      exact synced
    have admits := addNode_admits admitted
    have chains : (s.addNode g shardConnId localId details).1.chains =
        s.chains.entryOrDefault g (recordAdded true added) := by
      rw [result, send]
    have state : (s.addNode g shardConnId localId details).1.state = st' := by rw [result]
    have unlocated : s.pendingLocation added.id = none := by
      rw [pendingLocation, pendingUpdates_eq_none cons holds admits.fresh]
      rfl
    refine ⟨fun slot => ?_, fun zero => funext fun slot => ?_⟩
    · rw [pendingRecords_recordAdded chains admits.chain_eq, state, unlocated, Node.relocate_none]
      split
      · rename_i same
        rw [← same, admits.holds]
      · rw [admits.frame _ (Ne.symm ‹_›), synced.pending]
    · rw [state] at zero
      by_cases same : g = genesisHash
      · subst same
        have more := admits.count_succ
        omega
      · rw [pendingRecords_recordAdded chains admits.chain_eq,
          if_neg fun here => same (admits.chain_eq.symm.trans (congrArg NodeId.chain here))]
        exact congrFun (synced.quiet ((admits.count_frame _ (Ne.symm same)).symm.trans zero)) slot
  | .updateNode shardConnId localId payload, _, _, _ => by
    simp only [State.step, applyRecordOutput]
    rcases updateNode_cases (s := s) shardConnId localId payload with same | ⟨nodeId, -, -, -, result⟩
    · rw [same]
      exact synced
    · rw [result]
      exact synced.congr (pendingRecords_updatePending_of_location (NodeUpdates.location_record · payload)) rfl
        fun _ => rfl
  | .removeNode shardConnId localId, keeps, _, _ => by
    simp only [State.step, applyRecordOutput]
    rcases removeNode_cases (s := s) shardConnId localId with ⟨-, same⟩ | ⟨nodeId, nodeMapped, result⟩
    · rw [same]
      exact synced
    · simp only [KeepsChain, removalTargets_removeNode_of_mapped nodeMapped] at keeps
      rw [result]
      exact (synced.congr rfl rfl fun _ => rfl :
        Synced genesisHash { s with nodeIds := (s.nodeIds.removeByRight (shardConnId, localId)).2 } records).removeNodes
        send counts (List.nodup_singleton _) (by simpa using cons.mapped_held _ _ nodeMapped) keeps
  | .disconnectNode shardConnId, keeps, _, _ =>
    synced.removeNodes send counts (nodesOfConnection_targets cons).1 (nodesOfConnection_targets cons).2 keeps
  | .updateNodeLocation nodeId location, _, held, found => by
    obtain ⟨loc, rfl⟩ := Option.isSome_iff_exists.mp found
    simp only [State.step, applyRecordOutput, updateNodeLocation_some (mem_chains_of_node held) loc, send, if_true]
    refine ⟨fun slot => ?_, fun zero => funext fun slot => ?_⟩
    · rw [pendingRecords_updatePending, updatePending_state, node_updateNodeLocation]
      by_cases same : nodeId = ⟨genesisHash, slot⟩
      · subst same
        rw [if_pos rfl, if_pos rfl, ← synced.pending, pendingRecords, Option.map_map]
        exact congrArg (Option.map · _) (funext fun node => (Node.relocate_some node _ loc).symm)
      · rw [if_neg same, if_neg (Ne.symm same)]
        exact synced.pending slot
    · have other : nodeId ≠ ⟨genesisHash, slot⟩ := fun same =>
        nodeCount_ne_zero_of_node held (by rw [same]; simpa [nodeCount_updateNodeLocation] using zero)
      rw [pendingRecords_updatePending, if_neg other]
      exact congrFun (synced.quiet (by simpa [nodeCount_updateNodeLocation] using zero)) slot
  | .drainUpdatesForAllFeeds, _, _, _ =>
    synced.congr (pendingRecords_map (f := ({ · with hasChainLabelChanged := false })) (fun _ => ⟨rfl, rfl, rfl⟩)
      (lookup_drainUpdatesForAllFeeds genesisHash)) rfl fun _ => rfl
  | .drainChainUpdates, _, _, _ => by
    simp only [State.step]
    have count : s.drainChainUpdates.1.state.nodeCount genesisHash = s.state.nodeCount genesisHash := by
      rw [drainChainUpdates_state, (drainState_sameShape _ _).count]
    have sent := synced.drain counts cons holds
    have kept : s.entryCount genesisHash = 0 →
        applyRecordOutput genesisHash records (.chainUpdates s.drainChainUpdates.2) = records := fun zero =>
      funext fun slot => by rw [applyRecordOutput_drainChainUpdates cons holds, if_neg (not_not.mpr zero)]
    refine ⟨fun slot => ?_, fun zero => ?_⟩
    · rw [pendingRecords_drainChainUpdates]
      split
      · exact sent slot
      · rename_i zero
        rw [kept (not_not.mp zero), ← sent slot, kept (not_not.mp zero)]
        exact congrFun (synced.quiet (counts ▸ not_not.mp zero)) slot
    · have zero' : s.entryCount genesisHash = 0 := by rw [counts, ← count, zero]
      rw [pendingRecords_drainChainUpdates, if_neg (not_not.mpr zero'), kept zero']
      exact synced.quiet (count ▸ zero)
  | .updateAddedNodesMessages, _, _, _ => by
    simp only [State.step, applyRecordOutput]
    exact synced.congr (pendingRecords_congr (by rw [updateAddedNodesMessages_chains]))
      (by rw [updateAddedNodesMessages_state]) fun _ => by rw [updateAddedNodesMessages_state]

/-- A subscriber in step with the underlying state may as well hold the underlying state's own
records. -/
theorem held (synced : Synced genesisHash s records) :
    Synced genesisHash s fun slot => s.state.node ⟨genesisHash, slot⟩ :=
  have server : (fun slot => s.state.node ⟨genesisHash, slot⟩) = s.pendingRecords genesisHash records :=
    funext fun slot => (synced.pending slot).symm
  have pending : s.pendingRecords genesisHash (fun slot => s.state.node ⟨genesisHash, slot⟩) =
      fun slot => s.state.node ⟨genesisHash, slot⟩ := by
    rw [server, pendingRecords_pendingRecords]
  ⟨congrFun pending, fun _ => pending⟩

end Synced

end State

/-- A subscriber with no records is in step with a run `State::new` starts: no node is held and
no delta is pending. -/
theorem Run.synced_start {denylist : List String} {maxThirdPartyNodes : Nat} {firstPartyNetworks : List BlockHash}
    {sendNodeData : Bool} {metadataPath : Option String} {stored : Option (Except String Metadata)} {run : Run}
    (started : Run.start denylist maxThirdPartyNodes firstPartyNetworks sendNodeData metadataPath stored = some run)
    (genesisHash : BlockHash) : State.Synced genesisHash run.state fun _ => none := by
  obtain ⟨metadata, rfl⟩ := Run.start_some started
  have empty : ∀ updates, (metadata.chains.mapValues fun _ stored =>
      ({ highestNodeCount := stored.highestNodeCount } : ChainUpdates)).lookup genesisHash = some updates →
      updates.addedNodes = ∅ ∧ updates.removedNodes = ∅ ∧ updates.updatedNodes = ∅ := fun updates found => by
    rw [HashMap.lookup_mapValues, Option.map_eq_some'] at found
    obtain ⟨_, _, rfl⟩ := found
    exact ⟨rfl, rfl, rfl⟩
  exact ⟨fun slot => by rw [State.pendingRecords_of_empty empty]; rfl, fun _ => State.pendingRecords_of_empty empty _⟩

/-- The subscriber's promises include `Feed`'s. -/
theorem feedPromises {allowed : State → Op → Prop} {genesisHash : BlockHash}
    (promise : ∀ s op, allowed s op →
      FreshPairs s op ∧ LocatesHeld s op ∧ KeepsChain genesisHash s op ∧ LocatesFound op) :
    ∀ s op, allowed s op → FreshPairs s op ∧ LocatesHeld s op ∧ KeepsChain genesisHash s op :=
  fun s op allowed => ⟨(promise s op allowed).1, (promise s op allowed).2.1, (promise s op allowed).2.2.1⟩

/-- Along every run whose callers keep the promises, node data being sent, a subscriber in step
with the run stays in step with it. -/
theorem Reachable.synced_steps {allowed : State → Op → Prop} {genesisHash : BlockHash}
    (promise : ∀ s op, allowed s op →
      FreshPairs s op ∧ LocatesHeld s op ∧ KeepsChain genesisHash s op ∧ LocatesFound op) :
    ∀ (ops : List Op) {run : Run} {records : Records}, Reachable allowed run → run.Along allowed ops →
      run.state.sendNodeData = true → State.Synced genesisHash run.state records →
      State.Synced genesisHash (run.steps ops).state (run.records genesisHash ops records)
  | [], _, _, _, _, _, synced => synced
  | op :: ops, run, records, reach, ⟨permitted, later⟩, send, synced => by
    have promised := promise _ _ permitted
    exact Reachable.synced_steps promise ops (reach.step permitted) later ((State.step_sendNodeData op).trans send)
      (synced.step (reach.mirrors (feedPromises promise)).counts reach.consistent
        (fun s op allowed => (promise s op allowed).2.1) send op
        promised.2.2.1 promised.2.1 promised.2.2.2)

/-- Every run from `State::new` whose callers keep the promises, node data being sent, is in
step with the subscriber that has applied its outputs from the start. -/
theorem Reachable.synced {allowed : State → Op → Prop} {genesisHash : BlockHash}
    (promise : ∀ s op, allowed s op →
      FreshPairs s op ∧ LocatesHeld s op ∧ KeepsChain genesisHash s op ∧ LocatesFound op)
    {run : Run} (reach : Reachable allowed run) (send : run.state.sendNodeData = true) :
    ∃ records, State.Synced genesisHash run.state records := by
  induction reach with
  | start _ _ _ _ _ _ started => exact ⟨_, Run.synced_start started genesisHash⟩
  | step earlier permitted ih =>
    have sent : _ = true := (State.step_sendNodeData _).symm.trans send
    obtain ⟨records, synced⟩ := ih sent
    have promised := promise _ _ permitted
    exact ⟨_, synced.step (earlier.mirrors (feedPromises promise)).counts earlier.consistent
      (fun s op allowed => (promise s op allowed).2.1) sent _
      promised.2.2.1 promised.2.1 promised.2.2.2⟩

/-- After every drain of a run from `State::new` with node data sent, whose removals never take
away all of chain `genesisHash`'s nodes and whose `update_node_location` calls name held nodes
and give a location, a subscriber that has applied every drain's chunks for the chain from the
start holds in each slot exactly the underlying state's record of the node in it: its details,
blocks, staleness, statistics, authority set and location. -/
theorem subscriber_records_match_server {allowed : State → Op → Prop} {genesisHash : BlockHash}
    (promise : ∀ s op, allowed s op →
      FreshPairs s op ∧ LocatesHeld s op ∧ KeepsChain genesisHash s op ∧ LocatesFound op)
    {denylist : List String} {maxThirdPartyNodes : Nat} {firstPartyNetworks : List BlockHash}
    {metadataPath : Option String} {stored : Option (Except String Metadata)} {run : Run}
    (started : Run.start denylist maxThirdPartyNodes firstPartyNetworks true metadataPath stored = some run)
    (ops : List Op) (along : run.Along allowed ops) (slot : Nat) :
    run.records genesisHash (ops ++ [.drainChainUpdates]) (fun _ => none) slot =
      (run.steps (ops ++ [.drainChainUpdates])).state.state.node ⟨genesisHash, slot⟩ := by
  have reach : Reachable allowed run := .start _ _ _ _ _ _ started
  have send : run.state.sendNodeData = true := by
    obtain ⟨metadata, rfl⟩ := Run.start_some started
    rfl
  have final := reach.steps ops along
  rw [Run.records_append, Run.steps_append]
  exact (Reachable.synced_steps promise ops reach along send (Run.synced_start started genesisHash)).drain
    (final.mirrors (feedPromises promise)).counts final.consistent (fun s op allowed => (promise s op allowed).2.1)
    slot

theorem subscriber_records_match_server_after_location :
    let ops : List Op := [.addNode 7 1 1 ⟨"A", "x"⟩, .drainChainUpdates,
      .updateNodeLocation ⟨7, 0⟩ (some ⟨1, 2, "L"⟩), .updateNode 1 1 (.blockImport ⟨5, 3⟩)]
    (Run.fresh [] 10 [] true).records 7 (ops ++ [.drainChainUpdates]) (fun _ => none) 0 =
      ((Run.fresh [] 10 [] true).steps (ops ++ [.drainChainUpdates])).state.state.node ⟨7, 0⟩ :=
  subscriber_records_match_server (fun _ _ => id) (Run.start_fresh [] 10 [] true none) _ (by decide) 0

/-- Without `LocatesFound`: given `None`, `update_node_location` clears the location in the
underlying state and stores nothing to send, so the subscriber keeps the old location. -/
example :
    let ops : List Op := [.addNode 7 1 1 ⟨"A", "x"⟩, .updateNodeLocation ⟨7, 0⟩ (some ⟨1, 2, "L"⟩),
      .drainChainUpdates, .updateNodeLocation ⟨7, 0⟩ none, .drainChainUpdates]
    ((Run.fresh [] 10 [] true).records 7 ops (fun _ => none) 0).map Node.location = some (some ⟨1, 2, "L"⟩) ∧
      (((Run.fresh [] 10 [] true).steps ops).state.state.node ⟨7, 0⟩).map Node.location = some none := by
  decide

/-- A subscriber that joins at any point of a run from `State::new` with node data sent, whose
removals never take away all of chain `genesisHash`'s nodes and whose `update_node_location`
calls name held nodes and give a location: it takes the chain's roster right after
`update_added_nodes_messages`, and the output of every operation since.  After every drain it
holds in each slot exactly the underlying state's record of the node in it, as a subscriber
watching from the start does. -/
theorem late_subscriber_records_match_server {allowed : State → Op → Prop} {genesisHash : BlockHash}
    (promise : ∀ s op, allowed s op →
      FreshPairs s op ∧ LocatesHeld s op ∧ KeepsChain genesisHash s op ∧ LocatesFound op)
    {run : Run} (reach : Reachable allowed run) (send : run.state.sendNodeData = true)
    (ops : List Op) (along : run.Along allowed (.updateAddedNodesMessages :: ops)) (slot : Nat) :
    (run.step .updateAddedNodesMessages).1.records genesisHash (ops ++ [.drainChainUpdates])
        (rosterRecords (run.step .updateAddedNodesMessages).1.state genesisHash) slot =
      (run.steps (.updateAddedNodesMessages :: (ops ++ [.drainChainUpdates]))).state.state.node ⟨genesisHash, slot⟩ := by
  obtain ⟨permitted, later⟩ := along
  obtain ⟨records, synced⟩ := reach.synced promise send
  have holds : ∀ s op, allowed s op → LocatesHeld s op := fun s op allowed => (promise s op allowed).2.1
  have joined := reach.step permitted
  have roster : rosterRecords (run.step .updateAddedNodesMessages).1.state genesisHash =
      fun slot => run.state.state.node ⟨genesisHash, slot⟩ :=
    funext (rosterRecords_updateAddedNodesMessages send genesisHash)
  have joining : State.Synced genesisHash (run.step .updateAddedNodesMessages).1.state
      (rosterRecords (run.step .updateAddedNodesMessages).1.state genesisHash) := by
    rw [roster]
    exact synced.held.step (reach.mirrors (feedPromises promise)).counts reach.consistent holds send
      .updateAddedNodesMessages
      (promise _ _ permitted).2.2.1 trivial trivial
  have final := joined.steps ops later
  show (run.step .updateAddedNodesMessages).1.records genesisHash (ops ++ [.drainChainUpdates]) _ slot =
    ((run.step .updateAddedNodesMessages).1.steps (ops ++ [.drainChainUpdates])).state.state.node ⟨genesisHash, slot⟩
  rw [Run.records_append, Run.steps_append]
  exact (Reachable.synced_steps promise ops joined later ((State.step_sendNodeData _).trans send) joining).drain
    (final.mirrors (feedPromises promise)).counts final.consistent holds slot

theorem late_subscriber_records_match_server_after_joining :
    let run := (Run.fresh [] 10 [] true).steps
      [.addNode 7 1 1 ⟨"A", "x"⟩, .updateNodeLocation ⟨7, 0⟩ (some ⟨1, 2, "L"⟩), .drainChainUpdates,
        .updateNode 1 1 (.blockImport ⟨5, 3⟩)]
    let ops : List Op := [.addNode 7 2 1 ⟨"A", "y"⟩, .updateNode 2 1 (.notifyFinalized ⟨4, 2⟩)]
    (run.step .updateAddedNodesMessages).1.records 7 (ops ++ [.drainChainUpdates])
        (rosterRecords (run.step .updateAddedNodesMessages).1.state 7) 0 =
      (run.steps (.updateAddedNodesMessages :: (ops ++ [.drainChainUpdates]))).state.state.node ⟨7, 0⟩ :=
  late_subscriber_records_match_server (fun _ _ => id) (Reachable.steps _ (Reachable.fresh [] 10 [] true :
    Reachable (fun s op => FreshPairs s op ∧ LocatesHeld s op ∧ KeepsChain 7 s op ∧ LocatesFound op) _) (by decide))
    (by decide) _ (by decide) 0

end TelemetryCore
