import TelemetryCore.Announcements

namespace TelemetryCore

/-!
# The chain list

What `drain_updates_for_all_feeds` tells every feed about the chains: for each chain entry an
`AddedChain` with a label, a count and a highest count, the highest count being also what
`get_chain_max_node_count` reports once the call has stored it.

* In every reachable state, whatever the callers do, an entry that counts nodes carries the label
  and the count the underlying state has for its chain (`LabelsCurrent`, with the count from
  `Consistent`).  `add_node` and the node-by-node branch of `remove_nodes` copy both from what the
  underlying state reports, every other operation leaves the labels of both sides alone, and an
  entry that `update_node` or `update_node_location` creates counts no node.
* Along every run whose removals leave chain `h` some of its nodes, `get_chain_max_node_count(h)`
  never goes down, and after every `drain_updates_for_all_feeds` it is at least every count the
  chain has had since the run began: the stored maximum never exceeds the entry's highest count
  (`StoredWithinHighest`), which only rises.  The whole-chain branch of `remove_nodes` drops the
  entry and its highest count, which is how the maximum falls without the promise.
* A feed that starts with an empty chain list, in any state, and takes the payload of every
  `drain_updates_for_all_feeds` shows right after each exactly the chains that have an entry and
  are not reported removed, with their entries' labels and counts.  Between calls every chain the
  list shows has an entry or waits to be reported removed (`ListsEntries`): only the whole-chain
  branch of `remove_nodes` drops an entry, and it reports the chain removed; only `add_node`
  withdraws such a report, and it gives the chain an entry.
-/

open OrdinaryState

namespace State

variable {s s' : State} {genesisHash : BlockHash}

@[simp] theorem recordAdded_chainLabel (sendNodeData : Bool) (added : NodeAddedToChain) (updates : ChainUpdates) :
    (recordAdded sendNodeData added updates).chainLabel = added.newChainLabel := by
  unfold recordAdded; split <;> rfl

/-! ## Labels -/

/-- Every chain entry that counts nodes carries the label its chain has in the underlying
state. -/
def LabelsCurrent (s : State) : Prop :=
  ∀ genesisHash updates, s.chains.lookup genesisHash = some updates → updates.nodeCount ≠ 0 →
    (s.state.chains.lookup genesisHash).map Chain.label = some updates.chainLabel

namespace LabelsCurrent

/-- Keeping every chain's label in the underlying state, and every counting entry's label and
count, keeps the labels current. -/
theorem frame (labels : s.LabelsCurrent)
    (underlying : ∀ genesisHash, (s'.state.chains.lookup genesisHash).map Chain.label =
      (s.state.chains.lookup genesisHash).map Chain.label)
    (entries : ∀ genesisHash updates, s'.chains.lookup genesisHash = some updates → updates.nodeCount ≠ 0 →
      ∃ old, s.chains.lookup genesisHash = some old ∧ old.nodeCount = updates.nodeCount ∧
        old.chainLabel = updates.chainLabel) :
    s'.LabelsCurrent := fun genesisHash updates found counted => by
  obtain ⟨old, oldFound, count, label⟩ := entries genesisHash updates found counted
  rw [underlying, labels genesisHash old oldFound (count ▸ counted), label]

/-- Rewriting every entry without touching its label and count keeps the labels current. -/
theorem map (labels : s.LabelsCurrent) {f : ChainUpdates → ChainUpdates}
    (keeps : ∀ updates, (f updates).nodeCount = updates.nodeCount ∧ (f updates).chainLabel = updates.chainLabel)
    (lookup : ∀ genesisHash, s'.chains.lookup genesisHash = (s.chains.lookup genesisHash).map f)
    (underlying : ∀ genesisHash, (s'.state.chains.lookup genesisHash).map Chain.label =
      (s.state.chains.lookup genesisHash).map Chain.label) :
    s'.LabelsCurrent :=
  labels.frame underlying fun genesisHash updates found _ => by
    rw [lookup] at found
    obtain ⟨old, oldFound, rfl⟩ := Option.map_eq_some'.mp found
    exact ⟨old, oldFound, (keeps old).1.symm, (keeps old).2.symm⟩

/-- Storing a node's updates creates, at most, an entry that counts no node. -/
theorem updatePending (labels : s.LabelsCurrent) (g : BlockHash) (nodeId : NodeId) (f : NodeUpdates → NodeUpdates) :
    (s.updatePending g nodeId f).LabelsCurrent :=
  labels.frame (fun _ => rfl) fun genesisHash updates found counted => by
    rw [lookup_updatePending] at found
    split at found
    · subst genesisHash
      cases found
      cases old : s.chains.lookup g with
      | none => exact absurd (by simp only [old]; rfl) counted
      | some old' => exact ⟨old', rfl, by simp only [old, Option.getD_some], by simp only [old, Option.getD_some]⟩
    · exact ⟨updates, found, rfl, rfl⟩

theorem addNode (labels : s.LabelsCurrent) (genesisHash : BlockHash) (shardConnId : ConnId) (localId : ShardNodeId)
    (details : NodeDetails) : (s.addNode genesisHash shardConnId localId details).1.LabelsCurrent := by
  rcases addNode_cases genesisHash shardConnId localId details with ⟨_, result⟩ | ⟨added, st', admitted, result⟩
  · rw [result]
    exact labels
  rw [result]
  have admits := addNode_admits admitted
  intro hash updates found counted
  rw [HashMap.lookup_entryOrDefault_eq] at found
  split at found
  · subst hash
    cases found
    simpa using admits.label_eq
  · rename_i other
    rw [admits.chain_frame hash other]
    exact labels hash updates found counted

/-- The loop of `remove_nodes` over nodes of one chain keeps the labels current, the chain's entry
being the one the loop carries: each removal sets it to the label and count the underlying state
reports. -/
theorem removeChainNodes {g : BlockHash} :
    ∀ (s : State) (updates : ChainUpdates) (nodeIds : List NodeId),
      (∀ nodeId ∈ nodeIds, nodeId.chain = g) →
      LabelsCurrent { s with chains := s.chains.insert g updates } →
      LabelsCurrent { (s.removeChainNodes updates nodeIds).1 with
        chains := s.chains.insert g (s.removeChainNodes updates nodeIds).2 }
  | _, _, [], _, labels => labels
  | s, updates, nodeId :: rest, chained, labels => by
    have later := fun s updates => removeChainNodes s updates rest
      (fun other member => chained other (List.mem_cons_of_mem _ member))
    unfold State.removeChainNodes
    dsimp only
    split
    · rename_i removed st' removal
      have removes := removeNode_removes removal
      have chain := chained nodeId (List.mem_cons_self _ _)
      refine later _ _ fun hash entry found counted => ?_
      by_cases same : hash = g
      · subst same
        simp only [AList.lookup_insert, Option.some.injEq] at found
        subst found
        rw [← chain]
        by_cases send : s.sendNodeData = true <;> simp only [send, ↓reduceIte] at counted ⊢ <;>
          exact removes.label_eq counted
      · rw [AList.lookup_insert_ne same] at found
        rw [removes.chain_frame hash (chain ▸ same)]
        exact labels hash entry (by rwa [AList.lookup_insert_ne same]) counted
    · exact later _ _ labels

theorem removeChain (labels : s.LabelsCurrent) {g : BlockHash} {nodeIds : List NodeId}
    (chained : ∀ nodeId ∈ nodeIds, nodeId.chain = g) : (s.removeChain g nodeIds).LabelsCurrent := by
  unfold State.removeChain
  split
  · exact labels
  rename_i updates found
  split
  · refine labels.frame (fun _ => rfl) fun hash entry lookup _ => ⟨entry, ?_, rfl, rfl⟩
    by_cases same : hash = g
    · subst same; simp at lookup
    · simpa [AList.lookup_erase_ne same] using lookup
  · have start : LabelsCurrent { s with chains := s.chains.insert g updates } := fun hash entry lookup => by
      by_cases same : hash = g
      · subst same
        simp only [AList.lookup_insert, Option.some.injEq] at lookup
        exact lookup ▸ labels _ _ found
      · exact labels hash entry (by simpa [AList.lookup_insert_ne same] using lookup)
    simpa using removeChainNodes s updates nodeIds chained start

theorem removeNodes (labels : s.LabelsCurrent) (nodeIds : List NodeId) : (s.removeNodes nodeIds).LabelsCurrent := by
  unfold State.removeNodes
  have chained := fun group (member : group ∈ (groupByChain s.state nodeIds).entries) =>
    chain_of_mem_groupByChain member
  generalize (groupByChain s.state nodeIds).entries = groups at chained
  induction groups generalizing s with
  | nil => exact labels
  | cons group rest later =>
    exact later (labels.removeChain (chained group (List.mem_cons_self _ _)))
      (fun other member => chained other (List.mem_cons_of_mem _ member))

/-- Every operation keeps the labels current, whatever the callers do. -/
theorem step (labels : s.LabelsCurrent) : ∀ op : Op, (s.step op).1.LabelsCurrent
  | .addNode genesisHash shardConnId localId details => labels.addNode genesisHash shardConnId localId details
  | .updateNode shardConnId localId payload => by
    simp only [State.step]
    rcases updateNode_cases (s := s) shardConnId localId payload with same | ⟨_, -, -, -, result⟩
    · rw [same]
      exact labels
    · rw [result]
      exact labels.updatePending _ _ _
  | .removeNode shardConnId localId => by
    simp only [State.step]
    rcases removeNode_cases (s := s) shardConnId localId with ⟨-, same⟩ | ⟨_, -, result⟩
    · rw [same]
      exact labels
    · rw [result]
      exact LabelsCurrent.removeNodes (s := { s with nodeIds := (s.nodeIds.removeByRight (shardConnId, localId)).2 })
        labels _
  | .disconnectNode _ => labels.removeNodes _
  | .updateNodeLocation nodeId location => by
    simp only [State.step]
    have located : LabelsCurrent { s with state := s.state.updateNodeLocation nodeId location } :=
      labels.frame (label_updateNodeLocation nodeId location) fun _ updates found _ => ⟨updates, found, rfl, rfl⟩
    rcases updateNodeLocation_cases (s := s) nodeId location with same | ⟨_, -, -, -, result⟩
    · rw [same]
      exact located
    · rw [result]
      exact located.updatePending _ _ _
  | .drainUpdatesForAllFeeds =>
    labels.map (f := ({ · with hasChainLabelChanged := false })) (fun _ => ⟨rfl, rfl⟩)
      lookup_drainUpdatesForAllFeeds fun _ => rfl
  | .drainChainUpdates =>
    labels.map (f := fun updates => if updates.nodeCount ≠ 0 then updates.drained else updates)
      (fun _ => by dsimp only; split <;> exact ⟨rfl, rfl⟩) lookup_drainChainUpdates
      fun genesisHash => by
        rw [State.step, drainChainUpdates_state]
        exact (drainState_sameShape _ _).labels genesisHash
  | .updateAddedNodesMessages => fun genesisHash updates found counted => by
    simp only [State.step, updateAddedNodesMessages_chains, updateAddedNodesMessages_state] at found ⊢
    exact labels genesisHash updates found counted

end LabelsCurrent

end State

/-- In every reachable state, whatever the callers do, every entry that counts nodes carries the
label its chain has in the underlying state. -/
theorem Reachable.labelsCurrent {allowed : State → Op → Prop} {run : Run} (reach : Reachable allowed run) :
    run.state.LabelsCurrent := by
  induction reach with
  | start _ _ _ _ _ _ started =>
    obtain ⟨metadata, rfl⟩ := Run.start_some started
    intro genesisHash updates found counted
    simp only [HashMap.lookup_mapValues, Option.map_eq_some'] at found
    obtain ⟨_, _, rfl⟩ := found
    exact absurd rfl counted
  | step _ _ labels => exact labels.step _

/-- In every state reachable from `State::new`, whatever the callers do, every `AddedChain` that
`drain_updates_for_all_feeds` sends with a count other than `0` announces the label and the count
the underlying state has for the chain. -/
theorem announced_chain_matches_underlying {allowed : State → Op → Prop} {run : Run} (reach : Reachable allowed run)
    {label : String} {genesisHash : BlockHash} {count highest : Nat}
    (announced : FeedMessage.addedChain label genesisHash count highest ∈ run.state.drainUpdatesForAllFeeds.2.1)
    (counted : count ≠ 0) :
    ∃ view, run.state.state.getChainByGenesisHash genesisHash = some view ∧ label = view.chain.label ∧
      count = view.chain.nodeCount := by
  obtain ⟨updates, found, rfl, rfl, rfl⟩ := State.addedChain_mem_drainUpdatesForAllFeeds announced
  obtain ⟨chain, held, labelled⟩ := Option.map_eq_some'.mp (reach.labelsCurrent genesisHash updates found counted)
  have count : updates.nodeCount = chain.nodeCount := by
    rw [(reach.consistent.entries genesisHash updates found).count.resolve_left counted]
    simp [OrdinaryState.nodeCount, held]
  exact ⟨⟨genesisHash, chain⟩, by simp [getChainByGenesisHash, held], labelled.symm, count⟩

theorem announced_chain_matches_underlying_after_removal :
    let run := (Run.fresh [] 10 [] true).steps
      [.addNode 7 1 1 ⟨"A", "x"⟩, .addNode 7 2 1 ⟨"B", "y"⟩, .addNode 7 3 1 ⟨"B", "z"⟩, .removeNode 1 1]
    FeedMessage.addedChain "B" 7 2 3 ∈ run.state.drainUpdatesForAllFeeds.2.1 ∧ 2 ≠ 0 ∧
      ∃ view, run.state.state.getChainByGenesisHash 7 = some view ∧ "B" = view.chain.label ∧
        2 = view.chain.nodeCount :=
  let ops : List Op := [.addNode 7 1 1 ⟨"A", "x"⟩, .addNode 7 2 1 ⟨"B", "y"⟩, .addNode 7 3 1 ⟨"B", "z"⟩,
    .removeNode 1 1]
  have announced : FeedMessage.addedChain "B" 7 2 3 ∈ ((Run.fresh [] 10 [] true).steps ops).state.drainUpdatesForAllFeeds.2.1 := by
    decide
  ⟨announced, by decide, announced_chain_matches_underlying (Reachable.steps ops
    (Reachable.fresh [] 10 [] true : Reachable (fun _ _ => True) _) (by decide)) announced (by decide)⟩

/-! ## The stored maximum -/

namespace State

variable {s : State} {genesisHash : BlockHash}

@[simp] theorem removeChainNodes_metadata :
    ∀ (s : State) (updates : ChainUpdates) (nodeIds : List NodeId),
      (s.removeChainNodes updates nodeIds).1.metadata = s.metadata
  | _, _, [] => rfl
  | s, updates, nodeId :: rest => by
    unfold State.removeChainNodes
    dsimp only
    split <;> exact removeChainNodes_metadata _ _ rest

theorem removeNodes_metadata (nodeIds : List NodeId) : (s.removeNodes nodeIds).metadata = s.metadata := by
  unfold State.removeNodes
  generalize (groupByChain s.state nodeIds).entries = groups
  induction groups generalizing s with
  | nil => rfl
  | cons group rest later =>
    rw [List.foldl_cons, later]
    unfold State.removeChain
    split
    · rfl
    · split
      · rfl
      · simp

/-- Every operation but `drain_updates_for_all_feeds` leaves the stored maxima alone. -/
theorem metadata_step : ∀ op : Op, op ≠ .drainUpdatesForAllFeeds → (s.step op).1.metadata = s.metadata
  | .addNode genesisHash shardConnId localId details, _ => by
    simp only [State.step]
    rcases addNode_cases (s := s) genesisHash shardConnId localId details with ⟨_, result⟩ | ⟨_, _, _, result⟩ <;>
      rw [result]
  | .updateNode shardConnId localId payload, _ => by
    simp only [State.step]
    rcases updateNode_cases (s := s) shardConnId localId payload with same | ⟨_, -, -, -, result⟩
    · rw [same]
    · rw [result]; rfl
  | .removeNode shardConnId localId, _ => by
    simp only [State.step]
    rcases removeNode_cases (s := s) shardConnId localId with ⟨-, same⟩ | ⟨_, -, result⟩
    · rw [same]
    · rw [result, removeNodes_metadata]
  | .disconnectNode _, _ => removeNodes_metadata _
  | .updateNodeLocation nodeId location, _ => by
    simp only [State.step]
    rcases updateNodeLocation_cases (s := s) nodeId location with same | ⟨_, -, -, -, result⟩
    · rw [same]
    · rw [result]; rfl
  | .drainUpdatesForAllFeeds, other => absurd rfl other
  | .drainChainUpdates, _ => rfl
  | .updateAddedNodesMessages, _ => by
    show s.updateAddedNodesMessages.metadata = s.metadata
    unfold State.updateAddedNodesMessages
    split <;> rfl

/-- After `drain_updates_for_all_feeds` a chain with an entry has the entry's highest count stored
as its maximum; every other chain keeps the maximum stored for it. -/
theorem getChainMaxNodeCount_drain_eq :
    s.drainUpdatesForAllFeeds.1.getChainMaxNodeCount genesisHash =
      if genesisHash ∈ s.chains then some (s.entryHighest genesisHash) else s.getChainMaxNodeCount genesisHash := by
  simp only [getChainMaxNodeCount, drainUpdatesForAllFeeds, Metadata.update,
    Metadata.lookup_foldl_updateEntry genesisHash _ _ s.chains.nodupKeys, ← AList.lookup_isSome, entryHighest]
  change Option.map _ (((s.chains.lookup genesisHash).map _).or _) = _
  cases s.chains.lookup genesisHash <;> rfl

/-- After `drain_updates_for_all_feeds` the maximum stored for a chain is at least its entry's
highest count. -/
theorem entryHighest_le_drainUpdatesForAllFeeds :
    s.entryHighest genesisHash ≤ (s.drainUpdatesForAllFeeds.1.getChainMaxNodeCount genesisHash).getD 0 := by
  rw [getChainMaxNodeCount_drain_eq]
  split
  · exact le_rfl
  · rename_i missing
    have none : s.entryHighest genesisHash = 0 := by simp [entryHighest, AList.lookup_eq_none.mpr missing]
    omega

/-- The maximum stored for chain `genesisHash`, if any, is within the highest count of the chain's
entry. -/
def StoredWithinHighest (genesisHash : BlockHash) (s : State) : Prop :=
  ∀ stored, s.getChainMaxNodeCount genesisHash = some stored → stored ≤ s.entryHighest genesisHash

/-- An operation that does not lower the entry's highest count keeps the stored maximum within
it: only `drain_updates_for_all_feeds` stores, and it stores the highest count itself. -/
theorem StoredWithinHighest.step (within : StoredWithinHighest genesisHash s) (op : Op)
    (rises : s.entryHighest genesisHash ≤ (s.step op).1.entryHighest genesisHash) :
    StoredWithinHighest genesisHash (s.step op).1 := fun stored found => by
  by_cases drain : op = .drainUpdatesForAllFeeds
  · subst drain
    change s.drainUpdatesForAllFeeds.1.getChainMaxNodeCount genesisHash = some stored at found
    rw [getChainMaxNodeCount_drain_eq] at found
    split at found
    · cases found
      exact rises
    · exact (within stored found).trans rises
  · rw [getChainMaxNodeCount, metadata_step op drain] at found
    exact (within stored found).trans rises

end State

section HighWater

variable {allowed : State → Op → Prop} {genesisHash : BlockHash}
  (promise : ∀ s op, allowed s op → FreshPairs s op ∧ LocatesHeld s op ∧ KeepsChain genesisHash s op)
include promise

/-- Along every run whose removals never take away all of chain `genesisHash`'s nodes, the maximum
stored for the chain is within its entry's highest count. -/
theorem Reachable.storedWithinHighest {run : Run} (reach : Reachable allowed run) :
    State.StoredWithinHighest genesisHash run.state := by
  induction reach with
  | start _ _ _ _ _ _ started =>
    obtain ⟨metadata, rfl⟩ := Run.start_some started
    intro stored found
    simp only [State.getChainMaxNodeCount, State.entryHighest, HashMap.lookup_mapValues] at found ⊢
    cases lookup : metadata.chains.lookup genesisHash <;> simp_all
  | step earlier permitted within =>
    exact within.step _ (State.marksStep_step (earlier.mirrors promise).counts earlier.consistent _
      (promise _ _ permitted).2.2).highest

/-- Along every such run the highest count of the chain's entry never goes down. -/
theorem Reachable.entryHighest_le_steps :
    ∀ {run : Run} (ops : List Op), Reachable allowed run → run.Along allowed ops →
      run.state.entryHighest genesisHash ≤ (run.steps ops).state.entryHighest genesisHash
  | _, [], _, _ => le_rfl
  | _, op :: ops, reach, ⟨permitted, later⟩ =>
    (State.marksStep_step (reach.mirrors promise).counts reach.consistent op (promise _ _ permitted).2.2).highest.trans
      (Reachable.entryHighest_le_steps ops (reach.step permitted) later)

/-- Along every run whose removals never take away all of chain `genesisHash`'s nodes,
`get_chain_max_node_count` never goes down for the chain: whatever operation comes next, a stored
maximum is followed by one at least as large. -/
theorem max_node_count_never_decreases {run : Run} (reach : Reachable allowed run) (op : Op) {stored : Nat}
    (found : run.state.getChainMaxNodeCount genesisHash = some stored) :
    ∃ next, (run.step op).1.state.getChainMaxNodeCount genesisHash = some next ∧ stored ≤ next := by
  by_cases drain : op = .drainUpdatesForAllFeeds
  · subst drain
    change ∃ next, run.state.drainUpdatesForAllFeeds.1.getChainMaxNodeCount genesisHash = some next ∧ _
    rw [State.getChainMaxNodeCount_drain_eq]
    split
    · exact ⟨_, rfl, reach.storedWithinHighest promise stored found⟩
    · exact ⟨stored, found, le_rfl⟩
  · refine ⟨stored, ?_, le_rfl⟩
    simp only [Run.step, State.getChainMaxNodeCount, State.metadata_step op drain]
    exact found

/-- Along every run whose removals never take away all of chain `genesisHash`'s nodes, the maximum
that `drain_updates_for_all_feeds` leaves stored for the chain is at least every count the chain
has had since the run began. -/
theorem max_node_count_covers_earlier_counts {run : Run} (reach : Reachable allowed run) (ops : List Op)
    (along : run.Along allowed ops) :
    run.state.state.nodeCount genesisHash ≤
      ((run.steps ops).state.drainUpdatesForAllFeeds.1.getChainMaxNodeCount genesisHash).getD 0 :=
  calc run.state.state.nodeCount genesisHash
      = run.state.entryCount genesisHash := (reach.mirrors promise).counts.symm
    _ ≤ run.state.entryHighest genesisHash := reach.entryCount_le_entryHighest promise
    _ ≤ (run.steps ops).state.entryHighest genesisHash := Reachable.entryHighest_le_steps promise ops reach along
    _ ≤ _ := State.entryHighest_le_drainUpdatesForAllFeeds

end HighWater

theorem max_node_count_never_decreases_after_removal :
    let run := (Run.fresh [] 10 [] true).steps
      [.addNode 7 1 1 ⟨"A", "x"⟩, .addNode 7 1 2 ⟨"A", "y"⟩, .drainUpdatesForAllFeeds, .removeNode 1 1]
    run.state.getChainMaxNodeCount 7 = some 2 ∧
      ∃ next, (run.step .drainUpdatesForAllFeeds).1.state.getChainMaxNodeCount 7 = some next ∧ 2 ≤ next :=
  let ops : List Op := [.addNode 7 1 1 ⟨"A", "x"⟩, .addNode 7 1 2 ⟨"A", "y"⟩, .drainUpdatesForAllFeeds, .removeNode 1 1]
  have found : ((Run.fresh [] 10 [] true).steps ops).state.getChainMaxNodeCount 7 = some 2 := by decide
  ⟨found, max_node_count_never_decreases (fun _ _ => id) (Reachable.steps ops (Reachable.fresh [] 10 [] true :
    Reachable (fun s op => FreshPairs s op ∧ LocatesHeld s op ∧ KeepsChain 7 s op) _) (by decide)) _ found⟩

theorem max_node_count_covers_earlier_counts_after_removal :
    let run := (Run.fresh [] 10 [] true).steps [.addNode 7 1 1 ⟨"A", "x"⟩, .addNode 7 1 2 ⟨"A", "y"⟩]
    run.state.state.nodeCount 7 ≤
      ((run.steps [.removeNode 1 1]).state.drainUpdatesForAllFeeds.1.getChainMaxNodeCount 7).getD 0 :=
  max_node_count_covers_earlier_counts (fun _ _ => id) (Reachable.steps _ (Reachable.fresh [] 10 [] true :
    Reachable (fun s op => FreshPairs s op ∧ LocatesHeld s op ∧ KeepsChain 7 s op) _) (by decide)) _ (by decide)


/-! ## A feed's chain list -/

/-- A feed's chain list: for each genesis hash, the label, count and highest count of the last
`AddedChain` for it since the last `RemovedChain`, if any. -/
abbrev ChainView := BlockHash → Option (String × Nat × Nat)

/-- What an `AddedChain` for a chain entry shows. -/
def ChainUpdates.listing (updates : ChainUpdates) : String × Nat × Nat :=
  (updates.chainLabel, updates.nodeCount, updates.highestNodeCount)

/-- How a feed's chain list takes one message: `AddedChain` shows the chain with its label and
counts, `RemovedChain` drops it, and no other message touches the list. -/
def applyChainMessage (view : ChainView) : FeedMessage → ChainView
  | .addedChain label genesisHash count highest => Function.update view genesisHash (some (label, count, highest))
  | .removedChain genesisHash => Function.update view genesisHash none
  | _ => view

/-- A feed's chain list once an operation's output reaches it: only the payload of
`drain_updates_for_all_feeds` touches it. -/
def applyChainOutput (view : ChainView) : Output → ChainView
  | .allFeeds feed _ => feed.foldl applyChainMessage view
  | _ => view

/-- The chain list of a feed that takes the output of every operation of `ops`, from `run` on. -/
def Run.chainView : Run → List Op → ChainView → ChainView
  | _, [], view => view
  | run, op :: ops, view => Run.chainView (run.step op).1 ops (applyChainOutput view (run.step op).2)

theorem Run.chainView_append : ∀ (run : Run) (ops more : List Op) (view : ChainView),
    run.chainView (ops ++ more) view = (run.steps ops).chainView more (run.chainView ops view)
  | _, [], _, _ => rfl
  | _, _ :: ops, more, _ => Run.chainView_append _ ops more _

namespace State

variable {s : State}

/-- One chain's announcement shows the chain with its entry, whether or not a `RemovedChain`
comes first. -/
theorem foldl_chainAnnouncement (view : ChainView) (hash : BlockHash) (updates : ChainUpdates)
    (genesisHash : BlockHash) :
    (chainAnnouncement hash updates).foldl applyChainMessage view genesisHash =
      if genesisHash = hash then some updates.listing else view genesisHash := by
  unfold chainAnnouncement
  split <;> by_cases same : genesisHash = hash <;>
    simp [applyChainMessage, ChainUpdates.listing, Function.update, same]

/-- The announcements of entries with distinct hashes show each announced chain with its entry
and keep the rest of the list. -/
theorem foldl_flatMap_chainAnnouncement (genesisHash : BlockHash) :
    ∀ (entries : List (Σ _ : BlockHash, ChainUpdates)) (view : ChainView), entries.NodupKeys →
      (entries.flatMap fun entry => chainAnnouncement entry.1 entry.2).foldl applyChainMessage view genesisHash =
        ((entries.dlookup genesisHash).map ChainUpdates.listing).or (view genesisHash)
  | [], _, _ => rfl
  | ⟨hash, updates⟩ :: rest, view, nodup => by
    rw [List.nodupKeys_cons] at nodup
    rw [List.flatMap_cons, List.foldl_append, foldl_flatMap_chainAnnouncement genesisHash rest _ nodup.2,
      foldl_chainAnnouncement]
    by_cases same : genesisHash = hash
    · subst same
      simp [List.dlookup_cons_eq, List.dlookup_eq_none.mpr nodup.1]
    · simp [same, List.dlookup_cons_ne rest ⟨hash, updates⟩ same]

/-- `RemovedChain` for each of `hashes` drops those chains and keeps the rest of the list. -/
theorem foldl_applyChainMessage_removed (genesisHash : BlockHash) :
    ∀ (hashes : List BlockHash) (view : ChainView),
      (hashes.map FeedMessage.removedChain).foldl applyChainMessage view genesisHash =
        if genesisHash ∈ hashes then none else view genesisHash
  | [], _ => rfl
  | hash :: rest, view => by
    rw [List.map_cons, List.foldl_cons, foldl_applyChainMessage_removed genesisHash rest]
    by_cases same : genesisHash = hash <;> simp [applyChainMessage, Function.update, same]

/-- What a feed's chain list shows after the payload of `drain_updates_for_all_feeds`: nothing for
a chain reported removed, the entry of a chain with one, and otherwise what it showed before. -/
theorem foldl_applyChainMessage_drainUpdatesForAllFeeds (view : ChainView) (genesisHash : BlockHash) :
    s.drainUpdatesForAllFeeds.2.1.foldl applyChainMessage view genesisHash =
      if genesisHash ∈ s.removedChains then none
      else ((s.chains.lookup genesisHash).map ChainUpdates.listing).or (view genesisHash) := by
  simp only [drainUpdatesForAllFeeds, List.foldl_append]
  rw [foldl_applyChainMessage_removed, foldl_flatMap_chainAnnouncement _ _ _ s.chains.nodupKeys]
  rfl

theorem applyChainOutput_step (view : ChainView) :
    ∀ op : Op, op ≠ .drainUpdatesForAllFeeds → applyChainOutput view (s.step op).2 = view
  | .addNode .., _ | .updateNode .., _ | .removeNode .., _ | .disconnectNode _, _ | .updateNodeLocation .., _
  | .drainChainUpdates, _ | .updateAddedNodesMessages, _ => rfl
  | .drainUpdatesForAllFeeds, other => absurd rfl other

@[simp] theorem removeChainNodes_removedChains :
    ∀ (s : State) (updates : ChainUpdates) (nodeIds : List NodeId),
      (s.removeChainNodes updates nodeIds).1.removedChains = s.removedChains
  | _, _, [] => rfl
  | s, updates, nodeId :: rest => by
    unfold State.removeChainNodes
    dsimp only
    split <;> exact removeChainNodes_removedChains _ _ rest

/-- Whether a chain has an entry or is waiting to be reported removed. -/
def Listed (s : State) (genesisHash : BlockHash) : Prop :=
  genesisHash ∈ s.chains ∨ genesisHash ∈ s.removedChains

theorem listed_updatePending {genesisHash : BlockHash} (listed : s.Listed genesisHash) (g : BlockHash)
    (nodeId : NodeId) (f : NodeUpdates → NodeUpdates) : (s.updatePending g nodeId f).Listed genesisHash := by
  simpa [Listed, updatePending, HashMap.entryOrDefault, AList.mem_insert, or_assoc] using .inr listed

theorem listed_removeNodes {genesisHash : BlockHash} (listed : s.Listed genesisHash) (nodeIds : List NodeId) :
    (s.removeNodes nodeIds).Listed genesisHash := by
  unfold State.removeNodes
  generalize (groupByChain s.state nodeIds).entries = groups
  induction groups generalizing s with
  | nil => exact listed
  | cons group rest later =>
    rw [List.foldl_cons]
    refine later ?_
    show (s.removeChain group.1 group.2).Listed genesisHash
    unfold State.removeChain
    split
    · exact listed
    split
    · by_cases same : genesisHash = group.1
      · exact .inr (by simp [same])
      · simpa [Listed, AList.mem_erase, same] using listed
    · simpa [Listed, AList.mem_insert, or_assoc] using .inr listed

/-- Every operation but `drain_updates_for_all_feeds` keeps a chain that has an entry or waits to
be reported removed in one of the two: only the whole-chain branch of `remove_nodes` drops an
entry, and it reports the chain removed; only `add_node` withdraws such a report, and it gives
the chain an entry. -/
theorem listed_step {genesisHash : BlockHash} (listed : s.Listed genesisHash) :
    ∀ op : Op, op ≠ .drainUpdatesForAllFeeds → (s.step op).1.Listed genesisHash
  | .addNode g shardConnId localId details, _ => by
    simp only [State.step]
    rcases addNode_cases (s := s) g shardConnId localId details with ⟨_, result⟩ | ⟨_, _, _, result⟩
    · rw [result]
      exact listed
    · rw [result]
      by_cases same : genesisHash = g
      · exact .inl (by simp [same, HashMap.entryOrDefault, AList.mem_insert])
      · simpa [Listed, HashMap.entryOrDefault, AList.mem_insert, same] using listed
  | .updateNode shardConnId localId payload, _ => by
    simp only [State.step]
    rcases updateNode_cases (s := s) shardConnId localId payload with same | ⟨_, -, -, -, result⟩
    · rw [same]
      exact listed
    · rw [result]
      exact listed_updatePending listed _ _ _
  | .removeNode shardConnId localId, _ => by
    simp only [State.step]
    rcases removeNode_cases (s := s) shardConnId localId with ⟨-, same⟩ | ⟨_, -, result⟩
    · rw [same]
      exact listed
    · rw [result]
      exact listed_removeNodes (s := { s with nodeIds := (s.nodeIds.removeByRight (shardConnId, localId)).2 })
        listed _
  | .disconnectNode _, _ => listed_removeNodes listed _
  | .updateNodeLocation nodeId location, _ => by
    simp only [State.step]
    rcases updateNodeLocation_cases (s := s) nodeId location with same | ⟨_, -, -, -, result⟩
    · rw [same]
      exact listed
    · rw [result]
      exact listed_updatePending (s := { s with state := _ }) listed _ _ _
  | .drainUpdatesForAllFeeds, other => absurd rfl other
  | .drainChainUpdates, _ => by
    simpa [Listed, State.step, drainChainUpdates] using listed
  | .updateAddedNodesMessages, _ => by
    simp only [State.step]
    unfold State.updateAddedNodesMessages
    split <;> exact listed

/-- Every chain a feed's list shows has an entry or is waiting to be reported removed. -/
def ListsEntries (s : State) (view : ChainView) : Prop :=
  ∀ genesisHash, (view genesisHash).isSome → s.Listed genesisHash

/-- Each operation keeps a feed's list to chains with an entry or waiting to be reported
removed: `drain_updates_for_all_feeds` shows only chains with an entry and drops those reported
removed. -/
theorem ListsEntries.step {view : ChainView} (lists : ListsEntries s view) (op : Op) :
    ListsEntries (s.step op).1 (applyChainOutput view (s.step op).2) := by
  by_cases drain : op = .drainUpdatesForAllFeeds
  · subst drain
    intro genesisHash shown
    change (s.drainUpdatesForAllFeeds.2.1.foldl applyChainMessage view genesisHash).isSome at shown
    rw [foldl_applyChainMessage_drainUpdatesForAllFeeds] at shown
    split at shown
    · cases shown
    rename_i unreported
    refine .inl ((HashMap.mem_mapValues _ _ _).mpr ?_)
    cases found : s.chains.lookup genesisHash with
    | some _ => exact AList.lookup_isSome.mp (by rw [found]; rfl)
    | none =>
      rw [found] at shown
      exact (lists genesisHash shown).resolve_right unreported
  · rw [applyChainOutput_step view op drain]
    exact fun genesisHash shown => listed_step (lists genesisHash shown) op drain

end State

/-- Along any operations, a feed's list keeps to chains with an entry or waiting to be reported
removed, if it starts so. -/
theorem Run.listsEntries_chainView : ∀ (run : Run) (ops : List Op) (view : ChainView),
    State.ListsEntries run.state view → State.ListsEntries (run.steps ops).state (run.chainView ops view)
  | _, [], _, lists => lists
  | _, op :: ops, _, lists => Run.listsEntries_chainView _ ops _ (lists.step op)

/-- Whatever state a feed subscribes in and whatever operations follow, a feed that starts with an
empty chain list and takes the payload of every `drain_updates_for_all_feeds` shows, right after
each of them, exactly the chains that had an entry and were not reported removed, each with its
entry's label, count and highest count: a chain it was shown before and that has no entry any
more is not shown. -/
theorem chain_list_after_drain (run : Run) (ops : List Op) (genesisHash : BlockHash) :
    run.chainView (ops ++ [.drainUpdatesForAllFeeds]) (fun _ => none) genesisHash =
      if genesisHash ∈ (run.steps ops).state.removedChains then none
      else ((run.steps ops).state.chains.lookup genesisHash).map ChainUpdates.listing := by
  have lists := run.listsEntries_chainView ops (fun _ => none) fun _ shown => absurd shown (by simp)
  rw [Run.chainView_append]
  change ((run.steps ops).state.drainUpdatesForAllFeeds.2.1.foldl applyChainMessage
    (run.chainView ops fun _ => none)) genesisHash = _
  rw [State.foldl_applyChainMessage_drainUpdatesForAllFeeds]
  split
  · rfl
  rename_i unreported
  cases found : (run.steps ops).state.chains.lookup genesisHash with
  | some _ => rfl
  | none =>
    cases shown : run.chainView ops (fun _ => none) genesisHash with
    | none => rfl
    | some _ =>
      have listed := lists genesisHash (by rw [shown]; rfl)
      exact absurd (AList.lookup_isSome.mpr (listed.resolve_right unreported)) (by rw [found]; simp)

end TelemetryCore
