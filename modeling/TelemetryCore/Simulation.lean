import TelemetryCore.Removal

namespace TelemetryCore

/-!
# The wrapper against the spec's account of live nodes

For every node the spec's account holds live (`Run.live`), the wrapper keeps its mapping, its
record, an entry counting its chain, and, when node data is sent, the coalesced form of what was
delivered for it since the last drain: for each payload kind the last payload of that kind, and
the last location.  This holds along every run whose callers never add a mapped pair
(`FreshPairs`), except that a location given to the node's slot before its admission may stand
in for a location of its own; when the callers also locate only held nodes (`LocatesHeld`) there
is no such location.  It is the refinement the drain theorems rest on.
-/

/-! ## Coalescing -/

/-- The kind of a payload: the slot of `NodeUpdates` that stores it. -/
inductive PayloadKind where
  | systemConnected
  | systemInterval
  | blockImport
  | notifyFinalized
  | afgAuthoritySet
deriving DecidableEq, Repr

/-- A payload's kind. -/
def Payload.kind : Payload → PayloadKind
  | .systemConnected _ => .systemConnected
  | .systemInterval _ => .systemInterval
  | .blockImport _ => .blockImport
  | .notifyFinalized _ => .notifyFinalized
  | .afgAuthoritySet _ => .afgAuthoritySet

/-- The order in which `drain_chain_updates` replays a node's stored payloads. -/
def PayloadKind.replayOrder : List PayloadKind :=
  [.systemConnected, .systemInterval, .blockImport, .notifyFinalized, .afgAuthoritySet]

/-- The last payload of kind `kind` in a delivery log. -/
def lastOfKind (kind : PayloadKind) (log : List Payload) : Option Payload :=
  (log.filter (·.kind = kind)).getLast?

@[simp] theorem lastOfKind_nil (kind : PayloadKind) : lastOfKind kind [] = none := rfl

theorem lastOfKind_append_singleton (kind : PayloadKind) (log : List Payload) (payload : Payload) :
    lastOfKind kind (log ++ [payload]) =
      if payload.kind = kind then some payload else lastOfKind kind log := by
  unfold lastOfKind
  split <;> simp [List.filter_append, *]

theorem filterMap_cons_toList {α β : Type} (f : α → Option β) (head : α) (rest : List α) :
    (head :: rest).filterMap f = (f head).toList ++ rest.filterMap f := by
  cases found : f head <;> simp [List.filterMap_cons, found]

/-- The last payload of a kind is of that kind. -/
theorem kind_of_lastOfKind {kind : PayloadKind} {log : List Payload} {payload : Payload}
    (found : lastOfKind kind log = some payload) : payload.kind = kind := by
  simpa using (List.mem_filter.mp (List.mem_of_getLast?_eq_some found)).2

namespace NodeUpdates

/-- The payload stored in the slot of `kind`. -/
def slot (updates : NodeUpdates) : PayloadKind → Option Payload
  | .systemConnected => updates.systemConnected.map .systemConnected
  | .systemInterval => updates.systemInterval.map .systemInterval
  | .blockImport => updates.blockImport.map .blockImport
  | .notifyFinalized => updates.notifyFinalized.map .notifyFinalized
  | .afgAuthoritySet => updates.afgAuthoritySet.map .afgAuthoritySet

/-- The stored payloads are the slots in replay order. -/
theorem payloads_eq_filterMap (updates : NodeUpdates) :
    updates.payloads = PayloadKind.replayOrder.filterMap updates.slot := by
  simp only [PayloadKind.replayOrder, filterMap_cons_toList, List.filterMap_nil, List.append_nil,
    payloads, slot, List.append_assoc]

theorem slot_record (updates : NodeUpdates) (payload : Payload) (kind : PayloadKind) :
    (updates.record payload).slot kind = if payload.kind = kind then some payload else updates.slot kind := by
  cases payload <;> cases kind <;> rfl

@[simp] theorem slot_default (kind : PayloadKind) : (default : NodeUpdates).slot kind = none := by
  cases kind <;> rfl

/-- After a log of payloads each slot holds the last payload of its kind, if any. -/
theorem slot_foldl_record (kind : PayloadKind) :
    ∀ (log : List Payload) (updates : NodeUpdates),
      (log.foldl record updates).slot kind = (lastOfKind kind log).or (updates.slot kind) := by
  intro log
  induction log using List.reverseRecOn with
  | nil => intro updates; rfl
  | append_singleton log payload earlier =>
    intro updates
    rw [List.foldl_append, List.foldl_cons, List.foldl_nil, slot_record, earlier,
      lastOfKind_append_singleton]
    split <;> rfl

/-- The coalesced form of a delivery log and a location log: what `update_node` and
`update_node_location` leave in a fresh `NodeUpdates`. -/
def ofLog (delivered : List Payload) (located : List NodeLocation) : NodeUpdates :=
  { delivered.foldl record default with location := located.getLast? }

@[simp] theorem ofLog_nil : ofLog [] [] = default := rfl

theorem record_ofLog (delivered : List Payload) (located : List NodeLocation) (payload : Payload) :
    (ofLog delivered located).record payload = ofLog (delivered ++ [payload]) located := by
  simp only [ofLog, List.foldl_append, List.foldl_cons, List.foldl_nil]
  cases payload <;> rfl

theorem locate_ofLog (delivered : List Payload) (located : List NodeLocation) (loc : NodeLocation) :
    { ofLog delivered located with location := some loc } = ofLog delivered (located ++ [loc]) := by
  simp [ofLog]

theorem slot_ofLog (delivered : List Payload) (located : List NodeLocation) (kind : PayloadKind) :
    (ofLog delivered located).slot kind = lastOfKind kind delivered := by
  have := slot_foldl_record kind delivered default
  simp only [slot_default, Option.or_none] at this
  rw [← this]
  cases kind <;> rfl

/-- The payloads a drain replays for a node with a given history: the last payload of each
kind, in replay order. -/
theorem payloads_ofLog (delivered : List Payload) (located : List NodeLocation) :
    (ofLog delivered located).payloads =
      PayloadKind.replayOrder.filterMap fun kind => lastOfKind kind delivered := by
  rw [payloads_eq_filterMap]
  exact congrArg (PayloadKind.replayOrder.filterMap ·) (funext (slot_ofLog delivered located))

@[simp] theorem location_ofLog (delivered : List Payload) (located : List NodeLocation) :
    (ofLog delivered located).location = located.getLast? := rfl

private theorem eq_none_of_toList_map {α β : Type} {f : α → β} :
    ∀ {slot : Option α}, (slot.map f).toList = [] → slot = none
  | none, _ => rfl

/-- Updates that store no payload are the coalesced form of their location alone. -/
theorem eq_ofLog_of_payloads_nil {updates : NodeUpdates} (empty : updates.payloads = []) :
    updates = ofLog [] updates.location.toList := by
  obtain ⟨_, _, _, _, _, location⟩ := updates
  simp only [payloads, List.append_eq_nil] at empty
  obtain ⟨⟨⟨⟨connected, interval⟩, block⟩, finalized⟩, authority⟩ := empty
  obtain rfl := eq_none_of_toList_map connected
  obtain rfl := eq_none_of_toList_map interval
  obtain rfl := eq_none_of_toList_map block
  obtain rfl := eq_none_of_toList_map finalized
  obtain rfl := eq_none_of_toList_map authority
  cases location <;> rfl

end NodeUpdates

/-- Absorbing payloads never changes a node's details. -/
@[simp] theorem Node.details_absorb (node : Node) (payload : Payload) :
    (node.absorb payload).details = node.details := by
  cases payload <;> simp only [Node.absorb] <;> (try split) <;> rfl

@[simp] theorem Node.details_foldl_absorb :
    ∀ (payloads : List Payload) (node : Node), (payloads.foldl Node.absorb node).details = node.details
  | [], _ => rfl
  | payload :: rest, node => (Node.details_foldl_absorb rest _).trans (Node.details_absorb node payload)

/-! ## Live nodes in the wrapper -/

namespace State

open OrdinaryState

variable {s s' : State}

@[simp] theorem removeChain_sendNodeData (g : BlockHash) (nodeIds : List NodeId) :
    (s.removeChain g nodeIds).sendNodeData = s.sendNodeData := by
  unfold removeChain
  split
  · rfl
  · split <;> simp

@[simp] theorem removeNodes_sendNodeData (nodeIds : List NodeId) :
    (s.removeNodes nodeIds).sendNodeData = s.sendNodeData := by
  unfold removeNodes
  generalize (groupByChain s.state nodeIds).entries = groups
  induction groups generalizing s <;> simp [*]

@[simp] theorem removeNode_sendNodeData (shardConnId : ConnId) (localId : ShardNodeId) :
    (s.removeNode shardConnId localId).sendNodeData = s.sendNodeData := by
  unfold removeNode
  split <;> simp

/-- A chain entry's rewrite that keeps the updated nodes keeps every node's stored updates. -/
theorem pendingUpdates_entryOrDefault {g : BlockHash} {f : ChainUpdates → ChainUpdates}
    (keeps : ∀ updates, (f updates).updatedNodes = updates.updatedNodes) (nodeId : NodeId) :
    ((s.chains.entryOrDefault g f).lookup nodeId.chain).bind (·.updatedNodes.lookup nodeId) =
      s.pendingUpdates nodeId := by
  rw [HashMap.lookup_entryOrDefault_eq, pendingUpdates]
  split
  · rename_i same
    rw [same]
    cases s.chains.lookup g <;> simp [keeps]
    rfl
  · rfl

/-- The entry of `nodeId`'s chain, if `s` has one, is still there in `s'` with the same count
and the same stored updates for `nodeId`. -/
def EntryKept (s s' : State) (nodeId : NodeId) : Prop :=
  ∀ updates, s.chains.lookup nodeId.chain = some updates →
    ∃ updates', s'.chains.lookup nodeId.chain = some updates' ∧ updates'.nodeCount = updates.nodeCount ∧
      updates'.updatedNodes.lookup nodeId = updates.updatedNodes.lookup nodeId

theorem entryKept_updatePending {g : BlockHash} {nodeId other : NodeId} (f : NodeUpdates → NodeUpdates)
    (different : other ≠ nodeId) : EntryKept s (s.updatePending g nodeId f) other := by
  intro updates found
  rw [lookup_updatePending]
  split
  · rename_i same
    subst same
    simp [found, different]
  · exact ⟨updates, found, rfl, rfl⟩

/-- A slot the underlying state does not hold has at most a location stored for it; none when
`located` holds (the callers locate only held nodes). -/
theorem pendingUpdates_of_unheld {located : Prop} (cons : Consistent located s) {nodeId : NodeId}
    (unheld : s.state.node nodeId = none) :
    ∃ stray : List NodeLocation, (s.pendingUpdates nodeId).getD default = NodeUpdates.ofLog [] stray ∧
      (located → stray = []) := by
  cases stored : s.pendingUpdates nodeId with
  | none => exact ⟨[], rfl, fun _ => rfl⟩
  | some updates =>
    obtain ⟨entry, found, lookup⟩ := Option.bind_eq_some.mp stored
    have ok := cons.entries _ entry found
    have inEntry : nodeId ∈ entry.updatedNodes := AList.lookup_isSome.mp (by rw [lookup]; rfl)
    have empty : updates.payloads = [] := by
      by_contra nonempty
      simpa [unheld] using ok.payloads_held nodeId updates lookup nonempty
    exact ⟨_, NodeUpdates.eq_ofLog_of_payloads_nil empty, fun strict => by
      simpa [unheld] using ok.updated_held strict nodeId inEntry⟩

/-- What the wrapper holds for a node the spec's account has live: the node's mapping, its
record with the details it was admitted with, an entry counting its chain, and, when node
data is sent, the coalesced form of what was delivered and located for it since the last drain,
after the locations (`stray`) its slot was given before it was admitted, which
`update_node_location` keeps for a slot it does not check.  When `located` holds (the callers
locate only held nodes), there are none. -/
structure LiveOk (located : Prop) (s : State) (live : LiveNode) : Prop where
  mapped : (live.id, live.pair) ∈ s.nodeIds.pairs
  details : (s.state.node live.id).map Node.details = some live.details
  counted : s.Counted live.id
  pending : s.sendNodeData = true → ∃ stray : List NodeLocation,
    (s.pendingUpdates live.id).getD default = NodeUpdates.ofLog live.delivered (stray ++ live.located) ∧
      (located → stray = [])

namespace LiveOk

variable {located : Prop} {live : LiveNode}

/-- When the callers locate only held nodes, a live node has stored exactly the coalesced form of
its history. -/
theorem pending_eq (ok : LiveOk located s live) (strict : located) (sent : s.sendNodeData = true) :
    (s.pendingUpdates live.id).getD default = NodeUpdates.ofLog live.delivered live.located := by
  obtain ⟨stray, pending, none⟩ := ok.pending sent
  rw [pending, none strict, List.nil_append]

/-- Whatever the callers locate, a live node's stored payloads are the last delivered payload of
each kind. -/
theorem payloads_eq (ok : LiveOk located s live) (sent : s.sendNodeData = true) :
    ((s.pendingUpdates live.id).getD default).payloads =
      PayloadKind.replayOrder.filterMap fun kind => lastOfKind kind live.delivered := by
  obtain ⟨stray, pending, -⟩ := ok.pending sent
  rw [pending, NodeUpdates.payloads_ofLog]

theorem held (ok : LiveOk located s live) : (s.state.node live.id).isSome := by
  simpa using congrArg Option.isSome ok.details

/-- A live node's chain entry counts at least the node itself. -/
theorem nodeCount_ne_zero (ok : LiveOk located s live) {updates : ChainUpdates}
    (found : s.chains.lookup live.id.chain = some updates) : updates.nodeCount ≠ 0 := by
  obtain ⟨entry, lookup, count⟩ := ok.counted
  rw [found] at lookup
  cases lookup
  have := length_lt_nodeCount rfl s.state [] List.nodup_nil (List.not_mem_nil _) ok.held (by simp)
  simp only [List.length_nil] at this
  omega

/-- A change that keeps a live node's mapping, details, count and chain entry keeps the node
as the account has it. -/
theorem frame (ok : LiveOk located s live) (mapped : (live.id, live.pair) ∈ s'.nodeIds.pairs)
    (details : (s'.state.node live.id).map Node.details = (s.state.node live.id).map Node.details)
    (count : s'.state.nodeCount live.id.chain = s.state.nodeCount live.id.chain)
    (kept : EntryKept s s' live.id) (send : s'.sendNodeData = s.sendNodeData) : LiveOk located s' live := by
  obtain ⟨updates, found, counts⟩ := ok.counted
  obtain ⟨updates', found', sameCount, sameUpdates⟩ := kept updates found
  have stored : s'.pendingUpdates live.id = s.pendingUpdates live.id := by
    simp only [pendingUpdates, found, found', Option.some_bind, sameUpdates]
  exact ⟨mapped, details.trans ok.details, ⟨updates', found', by rw [sameCount, counts, count]⟩,
    fun sent => stored ▸ ok.pending (send.symm.trans sent)⟩

/-- What a removal leaves untouched stays as the account has it. -/
theorem untouched (ok : LiveOk located s live) (untouched : Untouched s s' live.id live.pair)
    (send : s'.sendNodeData = s.sendNodeData) : LiveOk located s' live where
  mapped := untouched.mapped
  details := by rw [untouched.node]; exact ok.details
  counted := untouched.counted ok.counted
  pending sent := by rw [untouched.updated]; exact ok.pending (send.symm.trans sent)

/-- When node data is not sent, the account's history of a node is not mirrored at all. -/
theorem silent (ok : LiveOk located s live) (quiet : s.sendNodeData = false) (delivered : List Payload)
    (locations : List NodeLocation) : LiveOk located s { live with delivered, located := locations } :=
  ⟨ok.mapped, ok.details, ok.counted, fun sent => absurd (quiet ▸ sent) Bool.false_ne_true⟩

/-- Storing for a live node what the account adds to its history keeps it as the account has
it, whatever locations its slot was given before. -/
theorem updatePending (ok : LiveOk located s live) (f : NodeUpdates → NodeUpdates) (delivered : List Payload)
    (locations : List NodeLocation)
    (history : ∀ stray, f (NodeUpdates.ofLog live.delivered (stray ++ live.located)) =
      NodeUpdates.ofLog delivered (stray ++ locations)) :
    LiveOk located (s.updatePending live.id.chain live.id f) { live with delivered, located := locations } := by
  obtain ⟨updates, found, counts⟩ := ok.counted
  have entry : (s.updatePending live.id.chain live.id f).chains.lookup live.id.chain =
      some { updates with updatedNodes := updates.updatedNodes.entryOrDefault live.id f } := by
    simp [lookup_updatePending, found]
  refine ⟨ok.mapped, ok.details, ⟨_, entry, counts⟩, fun sent => ?_⟩
  obtain ⟨stray, pending, none⟩ := ok.pending sent
  simp only [pendingUpdates, found, Option.some_bind] at pending
  refine ⟨stray, ?_, none⟩
  simp only [pendingUpdates, entry, Option.some_bind, HashMap.lookup_entryOrDefault, Option.getD_some,
    pending]
  exact history stray

/-- Storing for another node leaves a live node as the account has it. -/
theorem updatePending_other (ok : LiveOk located s live) {g : BlockHash} {nodeId : NodeId}
    (f : NodeUpdates → NodeUpdates) (different : live.id ≠ nodeId) :
    LiveOk located (s.updatePending g nodeId f) live :=
  ok.frame ok.mapped rfl rfl (entryKept_updatePending f different) rfl

end LiveOk

/-! ### One operation -/

variable {lives : List LiveNode}

variable {located : Prop}

theorem liveOk_addNode (cons : Consistent located s) (ok : ∀ live ∈ lives, LiveOk located s live)
    (genesisHash : BlockHash) (shardConnId : ConnId) (localId : ShardNodeId) (details : NodeDetails)
    (fresh : s.nodeIds.getByRight (shardConnId, localId) = none) :
    ∀ live ∈ liveAfter lives (.addNode genesisHash shardConnId localId details)
        (.added (s.addNode genesisHash shardConnId localId details).2),
      LiveOk located (s.addNode genesisHash shardConnId localId details).1 live := by
  rcases addNode_cases genesisHash shardConnId localId details with
    ⟨reason, result⟩ | ⟨added, st', admitted, result⟩
  · rw [result]; exact ok
  rw [result]
  have admits := addNode_admits admitted
  have pending := pendingUpdates_entryOrDefault (s := s) (g := genesisHash)
    (recordAdded_updatedNodes s.sendNodeData added)
  have counted : ∀ nodeId : NodeId, nodeId.chain = genesisHash →
      Counted { s with
        state := st'
        removedChains := s.removedChains.remove genesisHash
        nodeIds := s.nodeIds.insert added.id (shardConnId, localId)
        chains := s.chains.entryOrDefault genesisHash (recordAdded s.sendNodeData added) } nodeId :=
    fun nodeId chain => ⟨_, by rw [chain]; exact HashMap.lookup_entryOrDefault _ _ _,
      by simp [admits.chainNodeCount_eq, chain]⟩
  intro live member
  simp only [liveAfter, List.mem_cons] at member
  rcases member with rfl | old
  · -- The fresh node's slot was free, so what is stored for it is at most a location.
    obtain ⟨stray, stored, none⟩ := pendingUpdates_of_unheld cons admits.fresh
    refine ⟨by simp, by simp [admits.holds, admits.node_eq, Node.new], counted _ admits.chain_eq,
      fun _ => ⟨stray, ?_, none⟩⟩
    simp only [State.pendingUpdates] at pending stored ⊢
    rw [pending, stored, List.append_nil]
  · have liveOk := ok live old
    have different : live.id ≠ added.id := fun same => by simpa [same, admits.fresh] using liveOk.held
    have otherPair : live.pair ≠ (shardConnId, localId) := fun same =>
      Option.some_ne_none _ ((BiMap.getByRight_eq_some.mpr (same ▸ liveOk.mapped)).symm.trans fresh)
    refine ⟨by simp [liveOk.mapped, different, otherPair], by rw [admits.frame _ different]; exact liveOk.details,
      ?_, fun sent => ?_⟩
    · by_cases chain : live.id.chain = genesisHash
      · exact counted _ chain
      · obtain ⟨updates, found, count⟩ := liveOk.counted
        exact ⟨updates, by simp [HashMap.lookup_entryOrDefault_ne _ _ chain, found],
          (admits.count_frame _ chain).trans count.symm |>.symm⟩
    · simp only [State.pendingUpdates] at pending ⊢
      rw [pending]
      exact liveOk.pending sent

theorem liveOk_updateNode (cons : Consistent located s)
    (ok : ∀ live ∈ lives, LiveOk located s live) (shardConnId : ConnId) (localId : ShardNodeId) (payload : Payload) :
    ∀ live ∈ liveAfter lives (.updateNode shardConnId localId payload) .unit,
      LiveOk located (s.updateNode shardConnId localId payload) live := by
  intro live member
  simp only [liveAfter, List.mem_map] at member
  obtain ⟨entry, member, rfl⟩ := member
  have entryOk := ok entry member
  cases found : s.nodeIds.getByRight (shardConnId, localId) with
  | none =>
    have unmapped : entry.pair ≠ (shardConnId, localId) := fun same =>
      Option.some_ne_none _ ((BiMap.getByRight_eq_some.mpr (same ▸ entryOk.mapped)).symm.trans found)
    simp only [updateNode, found, if_neg unmapped]
    exact entryOk
  | some nodeId =>
    have mapped := BiMap.getByRight_eq_some.mp found
    rw [updateNode_of_getByRight found (mem_chains_of_node (cons.mapped_held _ _ mapped))]
    by_cases same : entry.pair = (shardConnId, localId)
    · have sameId : entry.id = nodeId := BiMap.left_unique (same ▸ entryOk.mapped) mapped
      subst sameId
      rw [if_pos same]
      split
      · exact entryOk.updatePending _ _ _ fun _ => NodeUpdates.record_ofLog _ _ _
      · exact entryOk.silent (Bool.eq_false_iff.mpr ‹_›) _ _
    · have different : entry.id ≠ nodeId := fun sameId =>
        same (BiMap.right_unique entryOk.mapped (sameId ▸ mapped))
      rw [if_neg same]
      split
      · exact entryOk.updatePending_other _ different
      · exact entryOk

/-- A location given to a live node joins its history; one given to any other id, held or not,
leaves every live node as it was. -/
theorem liveOk_updateNodeLocation (ok : ∀ live ∈ lives, LiveOk located s live) (nodeId : NodeId)
    (location : Location) :
    ∀ live ∈ liveAfter lives (.updateNodeLocation nodeId location) .unit,
      LiveOk located (s.updateNodeLocation nodeId location) live := by
  have recorded : ∀ live ∈ lives,
      LiveOk located { s with state := s.state.updateNodeLocation nodeId location } live := fun live member =>
    (ok live member).frame (ok live member).mapped
      (by rw [node_updateNodeLocation]; split <;> simp [*, Option.map_map, Function.comp_def])
      (nodeCount_updateNodeLocation _ _ _) (fun updates found => ⟨updates, found, rfl, rfl⟩) rfl
  cases location with
  | none => rw [updateNodeLocation_none]; exact recorded
  | some loc =>
    intro live member
    simp only [liveAfter, List.mem_map] at member
    obtain ⟨entry, member, rfl⟩ := member
    have entryOk := recorded entry member
    by_cases same : entry.id = nodeId
    · subst same
      rw [if_pos rfl, updateNodeLocation_some (mem_chains_of_node (ok entry member).held)]
      split
      · exact entryOk.updatePending _ _ _ fun stray =>
          (NodeUpdates.locate_ofLog _ _ _).trans (by rw [List.append_assoc])
      · exact entryOk.silent (Bool.eq_false_iff.mpr ‹_›) _ _
    · rw [if_neg same]
      rcases updateNodeLocation_cases nodeId (some loc) with unchanged | ⟨_, _, _, _, result⟩
      · rw [unchanged]; exact entryOk
      · rw [result]; exact entryOk.updatePending_other _ same

theorem liveOk_drainUpdatesForAllFeeds (ok : ∀ live ∈ lives, LiveOk located s live) :
    ∀ live ∈ lives, LiveOk located s.drainUpdatesForAllFeeds.1 live := fun live member =>
  (ok live member).frame (ok live member).mapped rfl rfl
    (fun updates found => ⟨{ updates with hasChainLabelChanged := false },
      by rw [lookup_drainUpdatesForAllFeeds, found]; rfl, rfl, rfl⟩) rfl

/-- A drain folds into each node's record the payloads the drained entries store for it. -/
theorem node_drainChainUpdates (cons : Consistent located s) (nodeId : NodeId) :
    s.drainChainUpdates.1.state.node nodeId = (s.state.node nodeId).map fun node =>
      (drainedPayloads (s.chains.entries.filter fun entry => entry.2.nodeCount ≠ 0) nodeId).foldl
        Node.absorb node := by
  rw [drainChainUpdates_state, node_drainState nodeId _ _ (s.chains.nodupKeys.sublist (List.filter_sublist _))
    fun chain inFilter other member =>
      ((cons.entries chain.1 chain.2 (AList.mem_lookup_iff.mpr (List.mem_filter.mp inFilter).1)).updated
        other member).1]

/-- A drain replays every live node's stored updates and starts its history afresh. -/
theorem liveOk_drainChainUpdates {held : Prop} (cons : Consistent held s)
    (ok : ∀ live ∈ lives, LiveOk located s live) :
    ∀ live ∈ liveAfter lives .drainChainUpdates (.chainUpdates s.drainChainUpdates.2),
      LiveOk located s.drainChainUpdates.1 live := by
  intro live member
  simp only [liveAfter, List.mem_map] at member
  obtain ⟨entry, member, rfl⟩ := member
  have entryOk := ok entry member
  obtain ⟨updates, found, count⟩ := entryOk.counted
  have nonzero := entryOk.nodeCount_ne_zero found
  have shape := drainState_sameShape s.state (s.chains.entries.filter fun entry => entry.2.nodeCount ≠ 0)
  have drained : s.drainChainUpdates.1.chains.lookup entry.id.chain = some updates.drained := by
    rw [lookup_drainChainUpdates, found]
    simp [nonzero]
  refine ⟨entryOk.mapped, ?_, ⟨_, drained, ?_⟩, fun _ => ?_⟩
  · rw [node_drainChainUpdates cons]
    simpa [Option.map_map, Function.comp_def] using entryOk.details
  · rw [drainChainUpdates_state, shape.count]
    exact count
  · exact ⟨[], by simp [pendingUpdates, drained, ChainUpdates.drained], fun _ => rfl⟩

theorem liveOk_updateAddedNodesMessages (ok : ∀ live ∈ lives, LiveOk located s live) :
    ∀ live ∈ lives, LiveOk located s.updateAddedNodesMessages live := fun live member =>
  (ok live member).frame (by simpa using (ok live member).mapped) (by simp) (by simp)
    (fun updates found => ⟨updates, by simpa using found, rfl, rfl⟩) (by simp)

/-- Every operation that does not add a mapped pair keeps each live node of the account as the
account has it; only `add_node` looks at what the consistency of the entries says about
locations, when it takes over a freed slot. -/
theorem liveOk_step (cons : Consistent located s) (ok : ∀ live ∈ lives, LiveOk located s live) :
    ∀ op : Op, FreshPairs s op → ∀ live ∈ liveAfter lives op (s.step op).2, LiveOk located (s.step op).1 live
  | .addNode genesisHash shardConnId localId details, fresh =>
    liveOk_addNode cons ok genesisHash shardConnId localId details fresh
  | .updateNode shardConnId localId payload, _ => liveOk_updateNode cons ok shardConnId localId payload
  | .removeNode shardConnId localId, _ => fun live member => by
    simp only [liveAfter, List.mem_filter, decide_eq_true_eq] at member
    exact (ok live member.1).untouched (removeNode_untouched cons (ok live member.1).mapped member.2)
      (removeNode_sendNodeData _ _)
  | .disconnectNode shardConnId, _ => fun live member => by
    simp only [liveAfter, List.mem_filter, decide_eq_true_eq] at member
    exact (ok live member.1).untouched (disconnectNode_untouched cons (ok live member.1).mapped member.2)
      (removeNodes_sendNodeData _)
  | .updateNodeLocation nodeId location, _ => liveOk_updateNodeLocation ok nodeId location
  | .drainUpdatesForAllFeeds, _ => liveOk_drainUpdatesForAllFeeds ok
  | .drainChainUpdates, _ => liveOk_drainChainUpdates cons ok
  | .updateAddedNodesMessages, _ => liveOk_updateAddedNodesMessages ok

end State

/-- Along every run whose callers never add a mapped pair, the wrapper holds each node the
spec's account has live as the account has it: mapped, held with its details, counted, and with
the coalesced form of its history since the last drain, after no stray location if the callers
also locate only held nodes. -/
theorem Reachable.liveOk {allowed : State → Op → Prop} {run : Run} (reach : Reachable allowed run)
    (promise : ∀ s op, allowed s op → FreshPairs s op) :
    ∀ live ∈ run.live, State.LiveOk (∀ s op, allowed s op → LocatesHeld s op) run.state live := by
  induction reach with
  | start _ _ _ _ _ _ started =>
    simp only [Run.start] at started
    split at started
    · cases started
      exact fun _ member => absurd member (List.not_mem_nil _)
    · cases started
  | step earlier permitted ok => exact State.liveOk_step earlier.consistent ok _ (promise _ _ permitted)

/-- Along every run whose callers keep their promises, every node the spec's account has live is
the one `update_node` and `remove_node` find under the pair it was admitted with, is held with
the details it was admitted with and counted by its chain's entry, and, when node data is sent,
has stored exactly the coalesced form of what was delivered and located for it since the last
drain. -/
theorem live_nodes_as_admitted {allowed : State → Op → Prop} {run : Run} (reach : Reachable allowed run)
    (promise : ∀ s op, allowed s op → FreshPairs s op ∧ LocatesHeld s op) :
    ∀ live ∈ run.live, run.state.nodeIds.getByRight live.pair = some live.id ∧
      (run.state.state.node live.id).map Node.details = some live.details ∧ run.state.Counted live.id ∧
      (run.state.sendNodeData = true →
        (run.state.pendingUpdates live.id).getD default = NodeUpdates.ofLog live.delivered live.located) :=
  fun live member =>
    let ok := reach.liveOk (fun s op allowed => (promise s op allowed).1) live member
    ⟨BiMap.getByRight_eq_some.mpr ok.mapped, ok.details, ok.counted,
      ok.pending_eq fun s op allowed => (promise s op allowed).2⟩

theorem live_nodes_as_admitted_located :
    let run := (Run.fresh [] 10 [] true).steps [.addNode 7 1 1 ⟨"A", "x"⟩,
      .updateNode 1 1 (.blockImport ⟨100, 10⟩), .updateNodeLocation ⟨7, 0⟩ (some ⟨1, 2, "L"⟩)]
    ∀ live ∈ run.live, run.state.nodeIds.getByRight live.pair = some live.id ∧
      (run.state.state.node live.id).map Node.details = some live.details ∧ run.state.Counted live.id ∧
      (run.state.sendNodeData = true →
        (run.state.pendingUpdates live.id).getD default = NodeUpdates.ofLog live.delivered live.located) :=
  live_nodes_as_admitted (Reachable.steps _
    (Reachable.fresh [] 10 [] true : Reachable (fun s op => FreshPairs s op ∧ LocatesHeld s op) _) (by decide))
    (fun _ _ => id)

end TelemetryCore
