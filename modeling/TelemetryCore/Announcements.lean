import TelemetryCore.Joining

namespace TelemetryCore

/-!
# What the drains announce, and a second drain

Every feed is sent by `drain_updates_for_all_feeds`, for each chain entry, an `AddedChain` with
the entry's label, count and highest count, preceded by a `RemovedChain` when the label changed,
and then a `RemovedChain` for every chain dropped since the last call.  Here:

* an announced count never exceeds the announced highest count, along every run whose removals
  leave each chain some of its nodes: `add_node` raises the highest count with the count, a
  removal only lowers the count, and the Feed module's `Mirrors` keeps the entry's count the
  chain's;
* a second call right after the first announces each chain once, with no `RemovedChain`,
  attempts no write and changes nothing: the label flags, the dropped chains and the highest
  counts to store are all consumed by the first;
* likewise a second `drain_chain_updates` right after the first visits the same chains and sends
  no chunk: no node message is sent twice.

Without the promise the bound fails.  The whole-chain branch of `remove_nodes`, reached from
`disconnect_node`, drops the chain's entry while its nodes stay held and mapped; `update_node`
for one of them recreates the entry with count and highest count `0`; removing that node then
takes the node-by-node branch, which sets the count to the nodes left and leaves the highest
count at `0`.
-/

namespace State

variable {s : State} {genesisHash : BlockHash}

/-- The chain announcements of `drain_updates_for_all_feeds` read the chains' entries: an
`AddedChain` for a chain carries its entry's label, count and highest count. -/
theorem addedChain_mem_drainUpdatesForAllFeeds {label : String} {count highest : Nat}
    (announced : FeedMessage.addedChain label genesisHash count highest ∈ s.drainUpdatesForAllFeeds.2.1) :
    ∃ updates, s.chains.lookup genesisHash = some updates ∧ label = updates.chainLabel ∧
      count = updates.nodeCount ∧ highest = updates.highestNodeCount := by
  simp only [drainUpdatesForAllFeeds, List.mem_append, List.mem_flatMap, List.mem_map] at announced
  rcases announced with ⟨entry, member, inAnnouncement⟩ | ⟨_, _, impossible⟩
  · simp only [chainAnnouncement, List.mem_append, List.mem_singleton, FeedMessage.addedChain.injEq] at inAnnouncement
    rcases inAnnouncement with inRemoved | ⟨rfl, rfl, rfl, rfl⟩
    · split at inRemoved <;> simp at inRemoved
    · exact ⟨entry.2, AList.mem_lookup_iff.mpr member, rfl, rfl, rfl⟩
  · cases impossible

/-! ## Counts within the highest count -/

/-- `add_node` raises an entry's highest count to the chain's new count. -/
theorem recordAdded_highestNodeCount (sendNodeData : Bool) (added : OrdinaryState.NodeAddedToChain)
    (updates : ChainUpdates) :
    (recordAdded sendNodeData added updates).highestNodeCount = max updates.highestNodeCount added.chainNodeCount := by
  unfold recordAdded; split <;> rfl

/-- Rewriting a chain's entry without touching its count and highest count keeps both. -/
theorem entryMarks_map {s' : State} {f : ChainUpdates → ChainUpdates}
    (keeps : ∀ updates, (f updates).nodeCount = updates.nodeCount ∧
      (f updates).highestNodeCount = updates.highestNodeCount)
    (lookup : s'.chains.lookup genesisHash = (s.chains.lookup genesisHash).map f) :
    s'.entryCount genesisHash = s.entryCount genesisHash ∧ s'.entryHighest genesisHash = s.entryHighest genesisHash := by
  simp only [entryCount, entryHighest, lookup]
  cases s.chains.lookup genesisHash <;> simp [keeps]

/-- Storing a node's updates keeps every chain's count and highest count, also when it creates
the chain's entry. -/
theorem entryMarks_updatePending (g : BlockHash) (nodeId : NodeId) (f : NodeUpdates → NodeUpdates) :
    (s.updatePending g nodeId f).entryCount genesisHash = s.entryCount genesisHash ∧
      (s.updatePending g nodeId f).entryHighest genesisHash = s.entryHighest genesisHash := by
  by_cases same : genesisHash = g
  · subst same
    simp only [entryCount, entryHighest, lookup_updatePending, if_true]
    cases s.chains.lookup genesisHash <;> exact ⟨rfl, rfl⟩
  · simp [entryCount, entryHighest, lookup_updatePending, same]

/-- What one operation may do to chain `genesisHash`'s count and highest count when it leaves
the chain some of its nodes: the highest count never goes down, and a count within it stays
within it. -/
structure MarksStep (genesisHash : BlockHash) (s s' : State) : Prop where
  highest : s.entryHighest genesisHash ≤ s'.entryHighest genesisHash
  within : s.entryCount genesisHash ≤ s.entryHighest genesisHash →
    s'.entryCount genesisHash ≤ s'.entryHighest genesisHash

theorem MarksStep.of_eq {s' : State} (count : s'.entryCount genesisHash = s.entryCount genesisHash)
    (highest : s'.entryHighest genesisHash = s.entryHighest genesisHash) : MarksStep genesisHash s s' :=
  ⟨highest.ge, fun peak => count ▸ highest ▸ peak⟩

/-- Recording an admission sets the entry's count to the chain's and raises its highest count to
it. -/
theorem marksStep_recordAdded {s' : State} {g : BlockHash} {added : OrdinaryState.NodeAddedToChain}
    (sendNodeData : Bool) (chains : s'.chains = s.chains.entryOrDefault g (recordAdded sendNodeData added)) :
    MarksStep genesisHash s s' := by
  by_cases same : genesisHash = g
  · subst same
    have raised : s'.entryHighest genesisHash = max (s.entryHighest genesisHash) added.chainNodeCount := by
      simp only [entryHighest, chains, HashMap.lookup_entryOrDefault]
      cases s.chains.lookup genesisHash
      · simp [recordAdded_highestNodeCount]
        exact Nat.zero_le _
      · simp [recordAdded_highestNodeCount]
    refine ⟨raised ▸ le_max_left _ _, fun _ => ?_⟩
    rw [raised, entryCount_recordAdded sendNodeData chains, if_pos rfl]
    exact le_max_right _ _
  · have lookup : s'.chains.lookup genesisHash = s.chains.lookup genesisHash := by
      rw [chains]
      exact HashMap.lookup_entryOrDefault_ne _ _ same
    exact .of_eq (by simp [entryCount, lookup]) (by simp [entryHighest, lookup])

/-- A removal that leaves the chain some of its nodes, or takes none of them, lowers the count
and keeps the highest count. -/
theorem marksStep_removeNodes (counts : s.entryCount genesisHash = s.state.nodeCount genesisHash)
    {targets : List NodeId} (nodup : targets.Nodup) (held : ∀ target ∈ targets, (s.state.node target).isSome)
    (keeps : targets.filter (·.chain = genesisHash) = [] ∨
      (targets.filter (·.chain = genesisHash)).length < s.state.nodeCount genesisHash) :
    MarksStep genesisHash s (s.removeNodes targets) := by
  obtain ⟨-, counted, count, highest, -⟩ := removeNodes_chain nodup held counts keeps
  exact ⟨highest.ge, fun peak => by omega⟩

/-- Every operation that leaves chain `genesisHash` some of its nodes keeps its highest count
and its count within it, when the chain's entry counts its nodes. -/
theorem marksStep_step {located : Prop} (counts : s.entryCount genesisHash = s.state.nodeCount genesisHash)
    (cons : Consistent located s) : ∀ op : Op, KeepsChain genesisHash s op → MarksStep genesisHash s (s.step op).1
  | .addNode g shardConnId localId details, _ => by
    simp only [State.step]
    rcases addNode_cases g shardConnId localId details with ⟨reason, result⟩ | ⟨added, st', -, result⟩
    · rw [result]
      exact .of_eq rfl rfl
    · exact marksStep_recordAdded s.sendNodeData (by rw [result])
  | .updateNode shardConnId localId payload, _ => by
    simp only [State.step]
    rcases updateNode_cases (s := s) shardConnId localId payload with same | ⟨_, -, -, -, result⟩
    · rw [same]
      exact .of_eq rfl rfl
    · rw [result]
      exact .of_eq (entryMarks_updatePending _ _ _).1 (entryMarks_updatePending _ _ _).2
  | .removeNode shardConnId localId, keeps => by
    simp only [State.step]
    rcases removeNode_cases (s := s) shardConnId localId with ⟨-, same⟩ | ⟨nodeId, nodeMapped, result⟩
    · rw [same]
      exact .of_eq rfl rfl
    · simp only [KeepsChain, removalTargets_removeNode_of_mapped nodeMapped] at keeps
      rw [result]
      have marks := marksStep_removeNodes (s := { s with nodeIds := (s.nodeIds.removeByRight (shardConnId, localId)).2 })
        counts (List.nodup_singleton _) (by simpa using cons.mapped_held _ _ nodeMapped) keeps
      exact ⟨marks.highest, marks.within⟩
  | .disconnectNode shardConnId, keeps =>
    marksStep_removeNodes counts (nodesOfConnection_targets cons).1 (nodesOfConnection_targets cons).2 keeps
  | .updateNodeLocation nodeId location, _ => by
    simp only [State.step]
    rcases updateNodeLocation_cases (s := s) nodeId location with same | ⟨_, -, -, -, result⟩
    · rw [same]
      exact .of_eq rfl rfl
    · rw [result]
      exact .of_eq (entryMarks_updatePending _ _ _).1 (entryMarks_updatePending _ _ _).2
  | .drainUpdatesForAllFeeds, _ => by
    obtain ⟨count, highest⟩ := entryMarks_map (f := ({ · with hasChainLabelChanged := false }))
      (fun _ => ⟨rfl, rfl⟩) (lookup_drainUpdatesForAllFeeds genesisHash)
    exact .of_eq count highest
  | .drainChainUpdates, _ => by
    obtain ⟨count, highest⟩ := entryMarks_map
      (f := fun updates => if updates.nodeCount ≠ 0 then updates.drained else updates)
      (fun _ => by dsimp only; split <;> exact ⟨rfl, rfl⟩) (lookup_drainChainUpdates genesisHash)
    exact .of_eq count highest
  | .updateAddedNodesMessages, _ =>
    .of_eq (by simp only [State.step, entryCount, updateAddedNodesMessages_chains])
      (by simp only [State.step, entryHighest, updateAddedNodesMessages_chains])

end State

/-- Along every run whose removals never take away all of chain `genesisHash`'s nodes, the
chain's entry counts no more nodes than its highest count. -/
theorem Reachable.entryCount_le_entryHighest {allowed : State → Op → Prop} {genesisHash : BlockHash} {run : Run}
    (reach : Reachable allowed run)
    (promise : ∀ s op, allowed s op → FreshPairs s op ∧ LocatesHeld s op ∧ KeepsChain genesisHash s op) :
    run.state.entryCount genesisHash ≤ run.state.entryHighest genesisHash := by
  induction reach with
  | start _ _ _ _ _ _ started =>
    obtain ⟨metadata, rfl⟩ := Run.start_some started
    simp only [State.entryCount, State.entryHighest, HashMap.lookup_mapValues]
    cases metadata.chains.lookup genesisHash <;> simp
  | step earlier permitted peak =>
    exact (State.marksStep_step (earlier.mirrors promise).counts earlier.consistent _
      (promise _ _ permitted).2.2).within peak

/-- Along every run whose removals never take away all of chain `genesisHash`'s nodes, every
`AddedChain` that `drain_updates_for_all_feeds` sends for the chain announces a count no larger
than the highest count it announces. -/
theorem announced_count_within_highest {allowed : State → Op → Prop} {genesisHash : BlockHash} {run : Run}
    (reach : Reachable allowed run)
    (promise : ∀ s op, allowed s op → FreshPairs s op ∧ LocatesHeld s op ∧ KeepsChain genesisHash s op)
    {label : String} {count highest : Nat}
    (announced : FeedMessage.addedChain label genesisHash count highest ∈ run.state.drainUpdatesForAllFeeds.2.1) :
    count ≤ highest := by
  obtain ⟨updates, found, -, rfl, rfl⟩ := State.addedChain_mem_drainUpdatesForAllFeeds announced
  simpa [State.entryCount, State.entryHighest, found] using reach.entryCount_le_entryHighest promise

theorem announced_count_within_highest_after_removal :
    let run := (Run.fresh [] 10 [] true).steps [.addNode 7 1 1 ⟨"A", "x"⟩, .addNode 7 2 1 ⟨"A", "y"⟩, .removeNode 1 1]
    FeedMessage.addedChain "A" 7 1 2 ∈ run.state.drainUpdatesForAllFeeds.2.1 ∧ 1 ≤ 2 :=
  let ops : List Op := [.addNode 7 1 1 ⟨"A", "x"⟩, .addNode 7 2 1 ⟨"A", "y"⟩, .removeNode 1 1]
  have announced : FeedMessage.addedChain "A" 7 1 2 ∈ ((Run.fresh [] 10 [] true).steps ops).state.drainUpdatesForAllFeeds.2.1 := by
    decide
  ⟨announced, announced_count_within_highest (Reachable.steps ops (Reachable.fresh [] 10 [] true :
    Reachable (fun s op => FreshPairs s op ∧ LocatesHeld s op ∧ KeepsChain 7 s op) _) (by decide))
    (fun _ _ => id) announced⟩

/-! ## A second announcement -/

namespace Metadata

/-- A loop of `Metadata::update` over chains whose highest counts are all stored already stores
nothing and leaves the flag as it was. -/
theorem foldl_updateEntry_of_stored :
    ∀ (entries : List (Σ _ : BlockHash, ChainUpdates)) (acc : Metadata × Bool),
      (∀ entry ∈ entries, acc.1.chains.lookup entry.1 = some ⟨entry.2.highestNodeCount⟩) →
      entries.foldl (fun acc entry => updateEntry acc entry.1 entry.2) acc = acc
  | [], _, _ => rfl
  | ⟨hash, chain⟩ :: rest, acc, stored => by
    have kept : updateEntry acc hash chain = acc := by
      simp [updateEntry, stored ⟨hash, chain⟩ (List.mem_cons_self _ _)]
    rw [List.foldl_cons, kept]
    exact foldl_updateEntry_of_stored rest acc fun entry member => stored entry (List.mem_cons_of_mem _ member)

end Metadata

namespace State

/-- Announcing entries whose label flags are clear is announcing each with an `AddedChain`. -/
theorem flatMap_chainAnnouncement : ∀ entries : List (Σ _ : BlockHash, ChainUpdates),
    (∀ entry ∈ entries, entry.2.hasChainLabelChanged = false) →
      entries.flatMap (fun entry => chainAnnouncement entry.1 entry.2) = entries.map fun entry =>
        .addedChain entry.2.chainLabel entry.1 entry.2.nodeCount entry.2.highestNodeCount
  | [], _ => rfl
  | entry :: rest, flags => by
    rw [List.flatMap_cons, List.map_cons, flatMap_chainAnnouncement rest fun other member =>
      flags other (List.mem_cons_of_mem _ member)]
    simp [chainAnnouncement, flags entry (List.mem_cons_self _ _)]

/-- When every label flag is clear, no chain is waiting to be announced dropped and every highest
count is stored, `drain_updates_for_all_feeds` changes nothing, attempts no write and announces
each entry with an `AddedChain` only. -/
theorem drainUpdatesForAllFeeds_of_settled {t : State}
    (flags : ∀ entry ∈ t.chains.entries, entry.2.hasChainLabelChanged = false)
    (dropped : t.removedChains = ∅)
    (stored : ∀ entry ∈ t.chains.entries, t.metadata.chains.lookup entry.1 = some ⟨entry.2.highestNodeCount⟩) :
    t.drainUpdatesForAllFeeds = (t, t.chains.entries.map (fun entry =>
      .addedChain entry.2.chainLabel entry.1 entry.2.nodeCount entry.2.highestNodeCount), none) := by
  have unchanged : t.metadata.update t.chains.entries = (t.metadata, false) :=
    Metadata.foldl_updateEntry_of_stored _ _ stored
  have cleared : t.chains.mapValues (fun _ updates => { updates with hasChainLabelChanged := false }) = t.chains :=
    AList.ext ((List.map_congr_left (g := id) fun entry member => by
      obtain ⟨hash, updates⟩ := entry
      have flag : updates.hasChainLabelChanged = false := flags _ member
      cases updates
      subst flag
      rfl).trans (List.map_id _))
  simp only [drainUpdatesForAllFeeds, unchanged, cleared, dropped, flatMap_chainAnnouncement _ flags, if_false,
    Bool.false_eq_true]
  rw [show (∅ : HashSet BlockHash).elems = [] from rfl, List.map_nil, List.append_nil, ← dropped]

end State

/-- Right after `drain_updates_for_all_feeds`, a second call changes nothing, attempts no
metadata write, and announces each chain entry once, with an `AddedChain` carrying its label,
count and highest count, and no `RemovedChain`. -/
theorem drainUpdatesForAllFeeds_twice (s : State) :
    s.drainUpdatesForAllFeeds.1.drainUpdatesForAllFeeds.1 = s.drainUpdatesForAllFeeds.1 ∧
      s.drainUpdatesForAllFeeds.1.drainUpdatesForAllFeeds.2.1 = s.chains.entries.map (fun entry =>
        .addedChain entry.2.chainLabel entry.1 entry.2.nodeCount entry.2.highestNodeCount) ∧
      s.drainUpdatesForAllFeeds.1.drainUpdatesForAllFeeds.2.2 = none := by
  have settled := State.drainUpdatesForAllFeeds_of_settled (t := s.drainUpdatesForAllFeeds.1)
    (fun entry member => by
      obtain ⟨_, _, rfl⟩ := List.mem_map.mp member
      rfl)
    rfl
    (fun entry member => by
      obtain ⟨⟨hash, updates⟩, original, rfl⟩ := List.mem_map.mp member
      show (s.metadata.update s.chains.entries).1.chains.lookup hash = _
      rw [Metadata.update, Metadata.lookup_foldl_updateEntry _ _ _ s.chains.nodupKeys,
        Option.mem_def.mp (List.mem_dlookup s.chains.nodupKeys original)]
      rfl)
  rw [settled]
  refine ⟨rfl, ?_, rfl⟩
  show (s.chains.entries.map _).map _ = _
  rw [List.map_map]
  rfl

namespace State

/-- A drained entry gives no chunk and replays nothing. -/
theorem chainUpdateChunks_drained (st : OrdinaryState) (updates : ChainUpdates) :
    chainUpdateChunks st updates.drained = (st, []) := rfl

/-- Chains whose entries store no updated node are drained without touching the underlying
state. -/
theorem drainState_of_drained (st : OrdinaryState) :
    ∀ chains : List (Σ _ : BlockHash, ChainUpdates), (∀ entry ∈ chains, entry.2.updatedNodes = ∅) →
      drainState st chains = st
  | [], _ => rfl
  | entry :: rest, empty => by
    rw [drainState, List.foldl_cons, empty entry (List.mem_cons_self _ _)]
    exact drainState_of_drained st rest fun other member => empty other (List.mem_cons_of_mem _ member)

end State

namespace State

/-- The chains a drain visits, after that drain: the same, drained. -/
theorem filter_drainedEntries : ∀ entries : List (Σ _ : BlockHash, ChainUpdates),
    (entries.map fun entry => (⟨entry.1, if entry.2.nodeCount ≠ 0 then entry.2.drained else entry.2⟩ :
      Σ _ : BlockHash, ChainUpdates)).filter (fun entry => entry.2.nodeCount ≠ 0) =
      (entries.filter fun entry => entry.2.nodeCount ≠ 0).map fun entry => ⟨entry.1, entry.2.drained⟩
  | [] => rfl
  | entry :: rest => by
    rw [List.map_cons, List.filter_cons, List.filter_cons, filter_drainedEntries rest]
    by_cases counted : entry.2.nodeCount = 0
    · simp [counted]
    · simp [counted, ChainUpdates.drained]

end State

/-- Right after `drain_chain_updates`, a second one changes nothing, and visits the chains the
first visited, in the same order, sending no chunk for any of them. -/
theorem drainChainUpdates_twice (s : State) :
    s.drainChainUpdates.1.drainChainUpdates.1 = s.drainChainUpdates.1 ∧
      s.drainChainUpdates.1.drainChainUpdates.2 = s.drainChainUpdates.2.map fun entry => (entry.1, []) := by
  have visited : s.drainChainUpdates.1.chains.entries.filter (fun entry => entry.2.nodeCount ≠ 0) =
      (s.chains.entries.filter fun entry => entry.2.nodeCount ≠ 0).map fun entry => ⟨entry.1, entry.2.drained⟩ :=
    State.filter_drainedEntries s.chains.entries
  refine ⟨?_, ?_⟩
  · have replayed : State.drainState s.drainChainUpdates.1.state
        (s.drainChainUpdates.1.chains.entries.filter fun entry => entry.2.nodeCount ≠ 0) = s.drainChainUpdates.1.state := by
      rw [visited]
      exact State.drainState_of_drained _ _ fun entry member => by
        obtain ⟨_, _, rfl⟩ := List.mem_map.mp member
        rfl
    have drainedAgain : s.drainChainUpdates.1.chains.mapValues (fun _ updates =>
        if updates.nodeCount ≠ 0 then updates.drained else updates) = s.drainChainUpdates.1.chains :=
      AList.ext (by
        show (s.chains.entries.map _).map _ = s.chains.entries.map _
        rw [List.map_map]
        refine List.map_congr_left fun entry _ => ?_
        by_cases counted : entry.2.nodeCount = 0 <;> simp [counted, ChainUpdates.drained])
    generalize s.drainChainUpdates.1 = first at replayed drainedAgain ⊢
    simp only [State.drainChainUpdates, State.drainChains_eq]
    rw [replayed, drainedAgain]
  · rw [State.drainChainUpdates_snd, visited, State.drainChainUpdates_snd, List.map_map, List.map_map]
    rfl

end TelemetryCore
