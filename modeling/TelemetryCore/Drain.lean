import TelemetryCore.Simulation

namespace TelemetryCore

/-!
# What a drain tells the feeds about live nodes

A drain is `drain_updates_for_all_feeds` followed by a fully consumed `drain_chain_updates`.
Its chunks are read here chain by chain, and within a chain slot by slot.  For a node the
spec's account has live, the replays are exactly the coalesced form of its history since the
last drain: its last location, then the last payload of each kind in replay order; and its
record in the underlying state absorbs exactly those payloads.  The last payload of a kind is
not the highest one, so a drain can move a node's best block backwards.
-/

/-- The messages a drain's chunks carry for chain `genesisHash`, concatenated. -/
def chainMessages (updates : List (BlockHash × List FeedMessageSerializer)) (genesisHash : BlockHash) :
    FeedMessageSerializer :=
  (updates.filter (·.1 = genesisHash)).flatMap (·.2.flatten)

/-- Whether a message replays a stored update of slot `slot`: a location or a payload. -/
def FeedMessage.replaysFor (slot : Nat) : FeedMessage → Bool
  | .locatedNode id .. | .nodeUpdated id _ => id == slot
  | _ => false

/-- Of a keyed list, only the entry under `key`, if any, contributes to a flatMap that gives
nothing for the other entries. -/
theorem flatMap_of_key {α β γ : Type} [DecidableEq α] (key : α) {f : (Σ _ : α, β) → List γ} :
    ∀ entries : List (Σ _ : α, β), entries.NodupKeys → (∀ entry ∈ entries, entry.1 ≠ key → f entry = []) →
      entries.flatMap f = ((entries.dlookup key).map fun value => f ⟨key, value⟩).getD []
  | [], _, _ => rfl
  | ⟨first, value⟩ :: rest, nodup, others => by
    rw [List.nodupKeys_cons] at nodup
    rw [List.flatMap_cons, flatMap_of_key key rest nodup.2
      (fun entry member => others entry (List.mem_cons_of_mem _ member))]
    by_cases same : first = key
    · subst same
      simp [List.dlookup_cons_eq, List.dlookup_eq_none.mpr nodup.1]
    · simp [others _ (List.mem_cons_self _ _) same, List.dlookup_cons_ne rest ⟨first, value⟩ (Ne.symm same)]

private theorem flatMap_filter {α β : Type} (p : α → Bool) (g : α → List β) :
    ∀ items : List α, (items.filter p).flatMap g = items.flatMap fun item => if p item then g item else []
  | [] => rfl
  | item :: rest => by
    rw [List.filter_cons, List.flatMap_cons, ← flatMap_filter p g rest]
    split <;> simp [*]

/-- A node's id is its chain and slot. -/
theorem nodeId_eq {nodeId other : NodeId} (chain : nodeId.chain = other.chain)
    (slot : nodeId.slot = other.slot) : nodeId = other := by
  cases nodeId
  cases other
  simp_all

namespace State

open OrdinaryState

/-- The messages `drain_chain_updates` emits for a chain: its deltas, if its entry counts nodes. -/
theorem chainMessages_drainChainUpdates (s : State) (genesisHash : BlockHash) :
    chainMessages s.drainChainUpdates.2 genesisHash =
      ((s.chains.lookup genesisHash).map fun updates =>
        if updates.nodeCount ≠ 0 then chainUpdateMessages s.state updates else []).getD [] := by
  rw [chainMessages, drainChainUpdates_snd, List.filter_map, List.flatMap_map, List.filter_filter,
    flatMap_filter, flatMap_of_key genesisHash _ s.chains.nodupKeys (fun entry _ other => by simp [other])]
  change ((s.chains.lookup genesisHash).map _).getD [] = _
  cases s.chains.lookup genesisHash <;> simp [flatten_chainUpdateChunks]

@[simp] theorem replayMessages_default (st : OrdinaryState) (nodeId : NodeId) :
    replayMessages st nodeId default = [] := by
  simp only [replayMessages]
  split <;> rfl

/-- All the replays of one node are for its slot. -/
theorem filter_replaysFor_replayMessages (st : OrdinaryState) (nodeId : NodeId) (updates : NodeUpdates)
    (slot : Nat) :
    (replayMessages st nodeId updates).filter (FeedMessage.replaysFor slot) =
      if nodeId.slot = slot then replayMessages st nodeId updates else [] := by
  unfold replayMessages
  by_cases same : nodeId.slot = slot <;> cases updates.location <;> split <;>
    simp [FeedMessage.replaysFor, List.filter_map, Function.comp_def, same]

/-- Among a chain's messages, the replays for one of its nodes' slot are those of the node's
stored updates. -/
theorem filter_replaysFor_chainUpdateMessages (st : OrdinaryState) {updates : ChainUpdates}
    {nodeId : NodeId} (keyed : ∀ other ∈ updates.updatedNodes, other.chain = nodeId.chain) :
    (chainUpdateMessages st updates).filter (FeedMessage.replaysFor nodeId.slot) =
      replayMessages st nodeId ((updates.updatedNodes.lookup nodeId).getD default) := by
  have others : ∀ entry ∈ updates.updatedNodes.entries, entry.1 ≠ nodeId →
      (replayMessages st entry.1 entry.2).filter (FeedMessage.replaysFor nodeId.slot) = [] :=
    fun entry member different => by
      rw [filter_replaysFor_replayMessages, if_neg]
      intro sameSlot
      have sameChain := keyed entry.1 (AList.mem_keys.mp (List.mem_keys_of_mem member))
      exact different (nodeId_eq sameChain sameSlot)
  simp only [chainUpdateMessages, List.filter_append, List.filter_map, Function.comp_def,
    FeedMessage.replaysFor, List.filter_false, List.map_nil, List.nil_append, List.filter_flatMap]
  rw [flatMap_of_key nodeId _ updates.updatedNodes.nodupKeys others]
  change ((updates.updatedNodes.lookup nodeId).map _).getD [] = _
  cases updates.updatedNodes.lookup nodeId <;> simp [filter_replaysFor_replayMessages]

end State

/-- A drain replays, for each node live when it starts, the coalesced form of what was
delivered for the node since the last drain: the last location given to it, then the last
payload of each kind in the order `SystemConnected`, `SystemInterval`, `BlockImport`,
`NotifyFinalized`, `AfgAuthoritySet`. -/
theorem drain_replays_last_of_each_kind {allowed : State → Op → Prop} {run : Run}
    (reach : Reachable allowed run) (promise : ∀ s op, allowed s op → FreshPairs s op ∧ LocatesHeld s op)
    (send : run.state.sendNodeData = true) {live : LiveNode} (member : live ∈ run.live) :
    (chainMessages run.state.drain.2.2 live.id.chain).filter (FeedMessage.replaysFor live.id.slot) =
      (live.located.getLast?.map fun loc =>
          FeedMessage.locatedNode live.id.slot loc.latitude loc.longitude loc.city).toList ++
        (PayloadKind.replayOrder.filterMap fun kind => lastOfKind kind live.delivered).map
          (.nodeUpdated live.id.slot) := by
  have ok := State.liveOk_drainUpdatesForAllFeeds (reach.liveOk fun s op allowed => (promise s op allowed).1)
    live member
  have cons := reach.consistent.drainUpdatesForAllFeeds
  obtain ⟨updates, found, -⟩ := ok.counted
  have pending := ok.pending_eq (fun s op allowed => (promise s op allowed).2) (by simpa using send)
  simp only [State.pendingUpdates, found, Option.some_bind] at pending
  rw [State.drain, State.chainMessages_drainChainUpdates, found]
  simp only [Option.map_some', Option.getD_some, if_pos (ok.nodeCount_ne_zero found)]
  rw [State.filter_replaysFor_chainUpdateMessages _ fun other member =>
      ((cons.entries _ _ found).updated other member).1, pending, State.replayMessages,
    if_pos ok.held, NodeUpdates.payloads_ofLog, NodeUpdates.location_ofLog]

theorem drain_replays_last_of_each_kind_admitted :
    let run := (Run.fresh [] 10 [] true).steps [.addNode 7 1 1 ⟨"A", "x"⟩,
      .updateNode 1 1 (.blockImport ⟨100, 10⟩), .updateNode 1 1 (.blockImport ⟨50, 5⟩),
      .updateNodeLocation ⟨7, 0⟩ (some ⟨1, 2, "L"⟩)]
    (chainMessages run.state.drain.2.2 7).filter (FeedMessage.replaysFor 0) =
      [.locatedNode 0 1 2 "L", .nodeUpdated 0 (.blockImport ⟨50, 5⟩)] :=
  have member : (⟨⟨7, 0⟩, (1, 1), ⟨"A", "x"⟩, [.blockImport ⟨100, 10⟩, .blockImport ⟨50, 5⟩],
      [⟨1, 2, "L"⟩]⟩ : LiveNode) ∈ ((Run.fresh [] 10 [] true).steps [.addNode 7 1 1 ⟨"A", "x"⟩,
        .updateNode 1 1 (.blockImport ⟨100, 10⟩), .updateNode 1 1 (.blockImport ⟨50, 5⟩),
        .updateNodeLocation ⟨7, 0⟩ (some ⟨1, 2, "L"⟩)]).live := by decide
  drain_replays_last_of_each_kind (Reachable.steps _
    (Reachable.fresh [] 10 [] true : Reachable (fun s op => FreshPairs s op ∧ LocatesHeld s op) _)
    (by decide)) (fun _ _ => id) (by decide) member

/-! ## Blocks -/

/-- A node after absorbing the last payload of `kind` in `log`, if there is one. -/
def Node.absorbLast (node : Node) (kind : PayloadKind) (log : List Payload) : Node :=
  ((lastOfKind kind log).map node.absorb).getD node

/-- A field of a node's record that only payloads of `kind` change, each by a rule that reads
that field alone: the best block under imports, the finalized block under finalizations. -/
structure FieldOfKind {α : Type} (field : Node → α) (kind : PayloadKind) : Prop where
  others : ∀ node payload, payload.kind ≠ kind → field (node.absorb payload) = field node
  determined : ∀ node node' payload, field node = field node' →
    field (node.absorb payload) = field (node'.absorb payload)

namespace FieldOfKind

variable {α : Type} {field : Node → α} {kind : PayloadKind}

theorem foldl_congr (tracks : FieldOfKind field kind) :
    ∀ (payloads : List Payload) {node node' : Node}, field node = field node' →
      field (payloads.foldl Node.absorb node) = field (payloads.foldl Node.absorb node')
  | [], _, _, same => same
  | payload :: rest, _, _, same => tracks.foldl_congr rest (tracks.determined _ _ payload same)

/-- Only the payloads of `kind` move the field. -/
theorem foldl_filter (tracks : FieldOfKind field kind) :
    ∀ (payloads : List Payload) (node : Node),
      field (payloads.foldl Node.absorb node) =
        field ((payloads.filter (·.kind = kind)).foldl Node.absorb node)
  | [], _ => rfl
  | payload :: rest, node => by
    by_cases same : payload.kind = kind
    · rw [List.foldl_cons, List.filter_cons_of_pos (by simpa using same), List.foldl_cons]
      exact tracks.foldl_filter rest _
    · rw [List.foldl_cons, List.filter_cons_of_neg (by simpa using same)]
      exact (tracks.foldl_filter rest _).trans (tracks.foldl_congr _ (tracks.others node payload same))

/-- A replay of the last payload of each kind moves the field as the last payload of `kind`
alone does. -/
theorem replay (tracks : FieldOfKind field kind) (log : List Payload) (node : Node) :
    field ((PayloadKind.replayOrder.filterMap fun kind => lastOfKind kind log).foldl Node.absorb node) =
      field (node.absorbLast kind log) := by
  have kinds : (PayloadKind.replayOrder.filterMap fun kind => lastOfKind kind log).filter (·.kind = kind) =
      (lastOfKind kind log).toList := by
    have ofKind : ∀ other, (lastOfKind other log).filter (·.kind = kind) =
        if other = kind then lastOfKind other log else none := fun other => by
      cases found : lastOfKind other log with
      | none => simp
      | some payload => simp [Option.filter, kind_of_lastOfKind found]
    rw [List.filter_filterMap]
    simp only [ofKind]
    cases kind <;> simp [PayloadKind.replayOrder, filterMap_cons_toList]
  rw [tracks.foldl_filter, kinds, Node.absorbLast]
  cases lastOfKind kind log <;> rfl

theorem absorbLast (tracks : FieldOfKind field kind) (log : List Payload) {node node' : Node}
    (same : field node = field node') : field (node.absorbLast kind log) = field (node'.absorbLast kind log) := by
  unfold Node.absorbLast
  cases lastOfKind kind log with
  | none => exact same
  | some payload => exact tracks.determined node node' payload same

end FieldOfKind

theorem best_fieldOfKind : FieldOfKind Node.best .blockImport where
  others node payload other := by
    cases payload <;> simp only [Node.absorb] <;> (try split) <;> first | rfl | exact (other rfl).elim
  determined node node' payload same := by
    cases payload <;> simp only [Node.absorb] <;> (try split) <;> (try split) <;> simp_all

theorem finalized_fieldOfKind : FieldOfKind Node.finalized .notifyFinalized where
  others node payload other := by
    cases payload <;> simp only [Node.absorb] <;> (try split) <;> first | rfl | exact (other rfl).elim
  determined node node' payload same := by
    cases payload <;> simp only [Node.absorb] <;> (try split) <;> (try split) <;> simp_all

/-- A node's best and finalized blocks. -/
def Node.blocks (node : Node) : Block × Block := (node.best, node.finalized)

/-- The payload an operation delivers for `pair`, if any. -/
def Op.deliveredFor (pair : ConnId × ShardNodeId) : Op → Option Payload
  | .updateNode shardConnId localId payload => if pair = (shardConnId, localId) then some payload else none
  | _ => none

/-- Whether an operation leaves the node mapped from `pair` in place: it removes neither the
pair nor its connection. -/
def Op.keeps (pair : ConnId × ShardNodeId) : Op → Bool
  | .removeNode shardConnId localId => decide (pair ≠ (shardConnId, localId))
  | .disconnectNode shardConnId => decide (pair.1 ≠ shardConnId)
  | _ => true

/-- The account keeps a live node whose pair an operation does not remove, and appends what
the operation delivers for the pair to its history. -/
theorem liveAfter_keeps {lives : List LiveNode} {live : LiveNode} (member : live ∈ lives) :
    ∀ (op : Op) (out : Output), op.isDrain = false → op.keeps live.pair = true →
      ∃ next ∈ liveAfter lives op out, next.id = live.id ∧ next.pair = live.pair ∧
        next.delivered = live.delivered ++ (op.deliveredFor live.pair).toList
  | .addNode .., out, _, _ => by
    refine ⟨live, ?_, rfl, rfl, by simp [Op.deliveredFor]⟩
    rcases out with _ | ⟨_ | _⟩ | _ | _ <;> simp [liveAfter, member]
  | .updateNode shardConnId localId payload, _, _, _ => by
    refine ⟨_, List.mem_map_of_mem _ member, by split <;> rfl, by split <;> rfl, ?_⟩
    simp only [Op.deliveredFor]
    split <;> simp
  | .removeNode shardConnId localId, _, _, keeps =>
    ⟨live, List.mem_filter.mpr ⟨member, keeps⟩, rfl, rfl, by simp [Op.deliveredFor]⟩
  | .disconnectNode shardConnId, _, _, keeps =>
    ⟨live, List.mem_filter.mpr ⟨member, keeps⟩, rfl, rfl, by simp [Op.deliveredFor]⟩
  | .updateNodeLocation nodeId none, _, _, _ => ⟨live, member, rfl, rfl, by simp [Op.deliveredFor]⟩
  | .updateNodeLocation nodeId (some loc), _, _, _ =>
    ⟨_, List.mem_map_of_mem _ member, by split <;> rfl, by split <;> rfl, by split <;> simp [Op.deliveredFor]⟩
  | .updateAddedNodesMessages, _, _, _ => ⟨live, member, rfl, rfl, by simp [Op.deliveredFor]⟩

namespace State

open OrdinaryState

variable {s : State}

@[simp] theorem updateNode_state (shardConnId : ConnId) (localId : ShardNodeId) (payload : Payload) :
    (s.updateNode shardConnId localId payload).state = s.state := by
  rcases updateNode_cases shardConnId localId payload with same | ⟨_, _, _, _, result⟩
  · rw [same]
  · rw [result]; rfl

@[simp] theorem updateNode_sendNodeData (shardConnId : ConnId) (localId : ShardNodeId) (payload : Payload) :
    (s.updateNode shardConnId localId payload).sendNodeData = s.sendNodeData := by
  rcases updateNode_cases shardConnId localId payload with same | ⟨_, _, _, _, result⟩
  · rw [same]
  · rw [result]; rfl

@[simp] theorem updateNodeLocation_state (nodeId : NodeId) (location : Location) :
    (s.updateNodeLocation nodeId location).state = s.state.updateNodeLocation nodeId location := by
  rcases updateNodeLocation_cases nodeId location with same | ⟨_, _, _, _, result⟩
  · rw [same]
  · rw [result]; rfl

@[simp] theorem updateNodeLocation_sendNodeData (nodeId : NodeId) (location : Location) :
    (s.updateNodeLocation nodeId location).sendNodeData = s.sendNodeData := by
  rcases updateNodeLocation_cases nodeId location with same | ⟨_, _, _, _, result⟩
  · rw [same]
  · rw [result]; rfl

/-- No operation changes whether node data is sent. -/
@[simp] theorem step_sendNodeData : ∀ op : Op, (s.step op).1.sendNodeData = s.sendNodeData
  | .addNode genesisHash shardConnId localId details => by
    simp only [step]
    rcases addNode_cases genesisHash shardConnId localId details with ⟨_, result⟩ | ⟨_, _, _, result⟩ <;>
      rw [result]
  | .updateNode .. | .removeNode .. | .updateNodeLocation .. | .drainUpdatesForAllFeeds | .drainChainUpdates
  | .updateAddedNodesMessages => by simp [step]
  | .disconnectNode _ => by simp [step, disconnectNode]

/-- Between drains, a mapped node that no operation removes keeps its blocks: only a drain
replays payloads into the underlying state. -/
theorem blocks_step {located : Prop} (cons : Consistent located s) {nodeId : NodeId}
    {pair : ConnId × ShardNodeId} (mapped : (nodeId, pair) ∈ s.nodeIds.pairs) :
    ∀ op : Op, op.isDrain = false → op.keeps pair = true →
      ((s.step op).1.state.node nodeId).map Node.blocks = (s.state.node nodeId).map Node.blocks
  | .addNode genesisHash shardConnId localId details, _, _ => by
    simp only [step]
    rcases addNode_cases genesisHash shardConnId localId details with
      ⟨_, result⟩ | ⟨added, st', admitted, result⟩ <;> rw [result]
    have admits := addNode_admits admitted
    have different : nodeId ≠ added.id := fun same => by
      simpa [same, admits.fresh] using cons.mapped_held _ _ mapped
    exact congrArg _ (admits.frame nodeId different)
  | .updateNode .., _, _ => by simp [step]
  | .removeNode shardConnId localId, _, keeps => by
    simp only [step, (removeNode_untouched cons mapped (by simpa [Op.keeps] using keeps)).node]
  | .disconnectNode shardConnId, _, keeps => by
    simp only [step, (disconnectNode_untouched cons mapped (by simpa [Op.keeps] using keeps)).node]
  | .updateNodeLocation other location, _, _ => by
    simp only [step, updateNodeLocation_state, node_updateNodeLocation]
    split
    · subst nodeId
      cases s.state.node other <;> rfl
    · rfl
  | .updateAddedNodesMessages, _, _ => by simp [step]

/-- A drain folds into the record of each node live when it starts the last payload of each
kind delivered for the node since the last drain. -/
theorem node_drain_of_liveOk {located held : Prop} (cons : Consistent held s) {live : LiveNode}
    (ok : LiveOk located s live) (send : s.sendNodeData = true) :
    s.drain.1.state.node live.id = (s.state.node live.id).map fun node =>
      (PayloadKind.replayOrder.filterMap fun kind => lastOfKind kind live.delivered).foldl Node.absorb node := by
  have single : ∀ other ∈ [live], LiveOk located s other := by simpa using ok
  have firstOk := liveOk_drainUpdatesForAllFeeds single live (List.mem_singleton_self _)
  have firstCons := cons.drainUpdatesForAllFeeds
  obtain ⟨updates, found, -⟩ := firstOk.counted
  have pending := firstOk.payloads_eq (by simpa using send)
  simp only [pendingUpdates, found, Option.some_bind] at pending
  have filed : List.dlookup live.id.chain (s.drainUpdatesForAllFeeds.1.chains.entries.filter
      fun entry => entry.2.nodeCount ≠ 0) = some updates :=
    List.mem_dlookup (s.drainUpdatesForAllFeeds.1.chains.nodupKeys.sublist (List.filter_sublist _))
      (List.mem_filter.mpr ⟨AList.mem_lookup_iff.mp found, by simpa using firstOk.nodeCount_ne_zero found⟩)
  rw [State.drain, node_drainChainUpdates firstCons, drainedPayloads, filed, drainUpdatesForAllFeeds_state]
  simp only [Option.map_some', Option.getD_some, pendingPayloads_entries, pending]

end State

theorem Run.steps_sendNodeData :
    ∀ (run : Run) (ops : List Op), (run.steps ops).state.sendNodeData = run.state.sendNodeData
  | _, [] => rfl
  | _, op :: ops => (Run.steps_sendNodeData _ ops).trans (State.step_sendNodeData op)

/-- Between drains, a live node whose pair no operation removes stays live with the payloads
delivered for its pair appended to its history, and keeps its blocks. -/
theorem Reachable.between {allowed : State → Op → Prop}
    (promise : ∀ s op, allowed s op → FreshPairs s op) :
    ∀ (ops : List Op) {run : Run}, Reachable allowed run → run.Along allowed ops →
      ∀ {live : LiveNode}, live ∈ run.live → (∀ op ∈ ops, op.isDrain = false ∧ op.keeps live.pair = true) →
        ∃ final ∈ (run.steps ops).live, final.id = live.id ∧ final.pair = live.pair ∧
          final.delivered = live.delivered ++ ops.filterMap (Op.deliveredFor live.pair) ∧
          ((run.steps ops).state.state.node live.id).map Node.blocks = (run.state.state.node live.id).map Node.blocks
  | [], _, _, _, live, member, _ => ⟨live, member, rfl, rfl, by simp, rfl⟩
  | op :: ops, run, reach, ⟨permitted, along⟩, live, member, between => by
    obtain ⟨drainFree, keeps⟩ := between op (List.mem_cons_self _ _)
    obtain ⟨next, nextMember, sameId, samePair, delivered⟩ :=
      liveAfter_keeps member op (run.state.step op).2 drainFree keeps
    obtain ⟨final, finalMember, finalId, finalPair, finalDelivered, finalBlocks⟩ :=
      Reachable.between promise ops (reach.step permitted) along nextMember
        (fun other inOps => samePair ▸ between other (List.mem_cons_of_mem _ inOps))
    refine ⟨final, finalMember, finalId.trans sameId, finalPair.trans samePair, ?_, ?_⟩
    · rw [finalDelivered, delivered, samePair, filterMap_cons_toList, List.append_assoc]
    · rw [← sameId, Run.steps, finalBlocks, sameId]
      exact State.blocks_step reach.consistent (reach.liveOk promise live member).mapped op drainFree keeps

/-- A drain's replay moves a field of the node's record that only payloads of `kind` move, and
that the blocks determine, as the last payload of `kind` alone does, from any record with the
same blocks. -/
private theorem field_after_drain {α : Type} {field : Node → α} {kind : PayloadKind}
    (tracks : FieldOfKind field kind) (log : List Payload) {first second : Option Node}
    (same : first.map Node.blocks = second.map Node.blocks)
    (onBlocks : ∀ node node', node.blocks = node'.blocks → field node = field node') :
    first.map (field ∘ fun node =>
        (PayloadKind.replayOrder.filterMap fun kind => lastOfKind kind log).foldl Node.absorb node) =
      second.map fun node => field (node.absorbLast kind log) := by
  have replay : (field ∘ fun node =>
      (PayloadKind.replayOrder.filterMap fun kind => lastOfKind kind log).foldl Node.absorb node) =
        fun node => field (node.absorbLast kind log) := funext fun node => tracks.replay log node
  rw [replay]
  cases first <;> cases second
  · rfl
  · cases same
  · cases same
  · exact congrArg some (tracks.absorbLast log (onBlocks _ _ (Option.some.inj same)))

/-- Between two drains, the second drain moves a node's best block as the underlying
`update_node` does when given only the last `BlockImport` delivered for the node since the
first, and its finalized block likewise with the last `NotifyFinalized`, whatever ids the callers
give locations to. -/
theorem drain_applies_last_block {allowed : State → Op → Prop} {run : Run} (reach : Reachable allowed run)
    (promise : ∀ s op, allowed s op → FreshPairs s op)
    (send : run.state.sendNodeData = true) {live : LiveNode} (member : live ∈ run.live) (ops : List Op)
    (along : run.Along allowed ops) (between : ∀ op ∈ ops, op.isDrain = false ∧ op.keeps live.pair = true) :
    ((run.steps ops).state.drain.1.state.node live.id).map Node.best =
        (run.state.state.node live.id).map (fun node =>
          (node.absorbLast .blockImport (live.delivered ++ ops.filterMap (Op.deliveredFor live.pair))).best) ∧
      ((run.steps ops).state.drain.1.state.node live.id).map Node.finalized =
        (run.state.state.node live.id).map (fun node =>
          (node.absorbLast .notifyFinalized
            (live.delivered ++ ops.filterMap (Op.deliveredFor live.pair))).finalized) := by
  obtain ⟨final, finalMember, sameId, -, delivered, blocks⟩ := Reachable.between promise ops reach along member between
  have later := reach.steps ops along
  have drained := State.node_drain_of_liveOk later.consistent (later.liveOk promise final finalMember)
    ((Run.steps_sendNodeData run ops).trans send)
  rw [sameId, delivered] at drained
  rw [drained, Option.map_map, Option.map_map]
  exact ⟨field_after_drain best_fieldOfKind _ blocks fun _ _ same => congrArg Prod.fst same,
    field_after_drain finalized_fieldOfKind _ blocks fun _ _ same => congrArg Prod.snd same⟩

theorem drain_applies_last_block_admitted :
    let run := (Run.fresh [] 10 [] true).steps
      [.addNode 7 1 1 ⟨"A", "x"⟩, .drainUpdatesForAllFeeds, .drainChainUpdates]
    let ops : List Op := [.updateNode 1 1 (.blockImport ⟨100, 10⟩), .updateNode 1 1 (.blockImport ⟨50, 5⟩)]
    ((run.steps ops).state.drain.1.state.node ⟨7, 0⟩).map Node.best = some ⟨50, 5⟩ ∧
      ((run.steps ops).state.drain.1.state.node ⟨7, 0⟩).map Node.finalized = some ⟨0, 0⟩ :=
  have member : (⟨⟨7, 0⟩, (1, 1), ⟨"A", "x"⟩, [], []⟩ : LiveNode) ∈ ((Run.fresh [] 10 [] true).steps
      [.addNode 7 1 1 ⟨"A", "x"⟩, .drainUpdatesForAllFeeds, .drainChainUpdates]).live := by decide
  drain_applies_last_block (Reachable.steps _ (Reachable.fresh [] 10 [] true : Reachable FreshPairs _)
    (by decide)) (fun _ _ => id) (by decide) member
    [.updateNode 1 1 (.blockImport ⟨100, 10⟩), .updateNode 1 1 (.blockImport ⟨50, 5⟩)] (by decide) (by decide)

/-- The best block after one import applied on its own, in delivery order, when an import at a
height not above the current best is ignored. -/
def importInOrder (best block : Block) : Block :=
  if block.height ≤ best.height then best else block

/-- Two imports delivered between drains, the second lower than the first: the drain applies
only the second, and the best block ends below where applying them one by one leaves it. -/
theorem drain_moves_best_block_back :
    ∃ run, run = (Run.fresh [] 10 [] true).steps
        [.addNode 7 1 1 ⟨"A", "x"⟩, .drainUpdatesForAllFeeds, .drainChainUpdates,
          .updateNode 1 1 (.blockImport ⟨100, 10⟩), .updateNode 1 1 (.blockImport ⟨50, 5⟩),
          .drainUpdatesForAllFeeds, .drainChainUpdates] ∧
      Reachable (fun s op => FreshPairs s op ∧ LocatesHeld s op) run ∧
      (run.state.state.node ⟨7, 0⟩).map Node.best = some ⟨50, 5⟩ ∧
      [⟨100, 10⟩, ⟨50, 5⟩].foldl importInOrder (Node.new ⟨"A", "x"⟩).best = ⟨100, 10⟩ :=
  ⟨_, rfl, .steps _ (.fresh [] 10 [] true) (by decide), by decide⟩

/-! ## What the feeds are told about chains -/

/-- A chain emptied and refilled between two drains: the whole-chain branch of `remove_nodes`
leaves the first node held and drops the chain's deltas, so the second drain reports neither
a `RemovedNode` for it nor a `RemovedChain`, and announces the chain with two nodes; and if the
new node leaves too, the chain has no live node and is still not reported removed. -/
theorem drain_keeps_removed_node_in_feed :
    ∃ first run, first = (Run.fresh [] 10 [] true).steps
        [.addNode 7 1 1 ⟨"A", "x"⟩, .drainUpdatesForAllFeeds, .drainChainUpdates] ∧
      run = first.steps [.removeNode 1 1, .addNode 7 1 2 ⟨"A", "y"⟩] ∧
      Reachable FreshPairs run ∧ Reachable FreshPairs (run.steps [.removeNode 1 2]) ∧
      (first.live.map fun live => (live.id.slot, live.details)) = [(0, ⟨"A", "x"⟩)] ∧
      (run.live.map fun live => (live.id.slot, live.details)) = [(1, ⟨"A", "y"⟩)] ∧
      chainMessages run.state.drain.2.2 7 = [.addedNode 1 (Node.new ⟨"A", "y"⟩)] ∧
      run.state.drain.2.1 = [.addedChain "A" 7 2 2] ∧
      (run.steps [.removeNode 1 2]).live = [] ∧
      (run.steps [.removeNode 1 2]).state.drain.2.1 = [.addedChain "A" 7 1 2] :=
  ⟨_, _, rfl, rfl, .steps _ (.steps _ (.fresh [] 10 [] true) (by decide)) (by decide),
    .steps _ (.steps _ (.steps _ (.fresh [] 10 [] true) (by decide)) (by decide)) (by decide), by decide⟩

/-- Three nodes reporting a new label join a chain between two drains: the label changes with
the second of them, but the third resets `has_chain_label_changed`, so the second drain
announces the new label without `RemovedChain`. -/
theorem drain_misses_label_change :
    ∃ first run, first = (Run.fresh [] 10 [] true).steps [.addNode 7 1 1 ⟨"A", "a"⟩] ∧
      run = first.steps [.drainUpdatesForAllFeeds, .drainChainUpdates, .addNode 7 1 2 ⟨"B", "b"⟩,
        .addNode 7 1 3 ⟨"B", "c"⟩, .addNode 7 1 4 ⟨"B", "d"⟩] ∧
      Reachable FreshPairs run ∧
      first.state.drain.2.1 = [.removedChain 7, .addedChain "A" 7 1 1] ∧
      run.state.drain.2.1 = [.addedChain "B" 7 4 4] :=
  ⟨_, _, rfl, rfl, .steps _ (.steps _ (.fresh [] 10 [] true) (by decide)) (by decide), by decide⟩

/-! ## The high-water mark -/

namespace Metadata

/-- A pass of `Metadata::update` leaves the entry's highest count stored for its chain, whether
it writes or not. -/
theorem lookup_updateEntry (acc : Metadata × Bool) (hash : BlockHash) (chain : ChainUpdates)
    (other : BlockHash) :
    (updateEntry acc hash chain).1.chains.lookup other =
      if other = hash then some ⟨chain.highestNodeCount⟩ else acc.1.chains.lookup other := by
  unfold updateEntry
  by_cases same : other = hash
  · subst other
    split
    · simp
    · rename_i stored found
      split
      · simp
      · cases stored
        simp_all
  · rw [if_neg same]
    split
    · exact AList.lookup_insert_ne same
    · split
      · exact AList.lookup_insert_ne same
      · rfl

/-- Over chains of distinct hashes, the loop of `Metadata::update` stores each chain's highest
count and keeps every other stored value. -/
theorem lookup_foldl_updateEntry (hash : BlockHash) :
    ∀ (entries : List (Σ _ : BlockHash, ChainUpdates)) (acc : Metadata × Bool), entries.NodupKeys →
      (entries.foldl (fun acc entry => updateEntry acc entry.1 entry.2) acc).1.chains.lookup hash =
        ((entries.dlookup hash).map fun chain => (⟨chain.highestNodeCount⟩ : ChainMetadata)).or
          (acc.1.chains.lookup hash)
  | [], _, _ => rfl
  | ⟨key, chain⟩ :: rest, acc, nodup => by
    rw [List.nodupKeys_cons] at nodup
    rw [List.foldl_cons, lookup_foldl_updateEntry hash rest _ nodup.2, lookup_updateEntry]
    by_cases same : hash = key
    · subst same
      simp [List.dlookup_cons_eq, List.dlookup_eq_none.mpr nodup.1]
    · simp [same, List.dlookup_cons_ne rest ⟨key, chain⟩ same]

/-- A pass of `Metadata::update` raises the flag exactly when the chain's highest count is not
the one stored. -/
theorem updateEntry_snd (acc : Metadata × Bool) (hash : BlockHash) (chain : ChainUpdates) :
    (updateEntry acc hash chain).2 =
      (acc.2 || decide (acc.1.chains.lookup hash ≠ some ⟨chain.highestNodeCount⟩)) := by
  unfold updateEntry
  split
  · simp [*]
  · rename_i stored found
    cases stored
    split <;> simp_all

/-- Over chains of distinct hashes, `Metadata::update` raises the flag exactly when it was raised
already or some chain's highest count is not the one stored when the loop starts: a pass only
writes its own chain's entry. -/
private theorem foldl_updateEntry_snd :
    ∀ (entries : List (Σ _ : BlockHash, ChainUpdates)) (acc : Metadata × Bool), entries.NodupKeys →
      ((entries.foldl (fun acc entry => updateEntry acc entry.1 entry.2) acc).2 = true ↔
        acc.2 = true ∨ ∃ entry ∈ entries, acc.1.chains.lookup entry.1 ≠ some ⟨entry.2.highestNodeCount⟩)
  | [], _, _ => by simp
  | ⟨key, chain⟩ :: rest, acc, nodup => by
    rw [List.nodupKeys_cons] at nodup
    have later : ∀ entry ∈ rest, (updateEntry acc key chain).1.chains.lookup entry.1 = acc.1.chains.lookup entry.1 :=
      fun entry member => by
        rw [lookup_updateEntry, if_neg fun same : entry.1 = key => nodup.1 (same ▸ (List.mem_keys_of_mem member : entry.1 ∈ rest.keys))]
    have unchanged : (∃ entry ∈ rest,
        (updateEntry acc key chain).1.chains.lookup entry.1 ≠ some ⟨entry.2.highestNodeCount⟩) ↔
          ∃ entry ∈ rest, acc.1.chains.lookup entry.1 ≠ some ⟨entry.2.highestNodeCount⟩ :=
      exists_congr fun entry => and_congr_right fun member => by rw [later entry member]
    rw [List.foldl_cons, foldl_updateEntry_snd rest _ nodup.2, updateEntry_snd]
    simp only [unchanged, List.mem_cons, exists_eq_or_imp, Bool.or_eq_true, decide_eq_true_eq, or_assoc]

/-- `Metadata::update` raises the flag exactly when some chain's highest count is not the one
stored. -/
theorem update_snd_iff (metadata : Metadata) (chains : HashMap BlockHash ChainUpdates) :
    (metadata.update chains.entries).2 = true ↔
      ∃ hash updates, chains.lookup hash = some updates ∧
        metadata.chains.lookup hash ≠ some ⟨updates.highestNodeCount⟩ := by
  rw [Metadata.update, foldl_updateEntry_snd _ _ chains.nodupKeys]
  simp only [Bool.false_eq_true, false_or]
  constructor
  · rintro ⟨⟨hash, updates⟩, member, stale⟩
    exact ⟨hash, updates, AList.mem_lookup_iff.mpr member, stale⟩
  · rintro ⟨hash, updates, found, stale⟩
    exact ⟨⟨hash, updates⟩, AList.mem_lookup_iff.mp found, stale⟩

/-- The map `Metadata::update` leaves differs from the one it was given exactly at the chains
whose highest count is not the one stored. -/
theorem update_lookup_ne_iff (metadata : Metadata) (chains : HashMap BlockHash ChainUpdates)
    (hash : BlockHash) :
    (metadata.update chains.entries).1.chains.lookup hash ≠ metadata.chains.lookup hash ↔
      ∃ updates, chains.lookup hash = some updates ∧
        metadata.chains.lookup hash ≠ some ⟨updates.highestNodeCount⟩ := by
  rw [Metadata.update, lookup_foldl_updateEntry hash _ _ chains.nodupKeys]
  change ((chains.lookup hash).map _).or _ ≠ _ ↔ _
  cases chains.lookup hash <;> simp [ne_comm]

end Metadata

/-- `drain_updates_for_all_feeds` stores every chain entry's highest count as the chain's
maximum, whatever maximum was stored before. -/
theorem State.getChainMaxNodeCount_drainUpdatesForAllFeeds (s : State) (genesisHash : BlockHash) :
    s.drainUpdatesForAllFeeds.1.getChainMaxNodeCount genesisHash =
      ((s.chains.lookup genesisHash).map (·.highestNodeCount)).or (s.getChainMaxNodeCount genesisHash) := by
  simp only [getChainMaxNodeCount, drainUpdatesForAllFeeds, Metadata.update,
    Metadata.lookup_foldl_updateEntry genesisHash _ _ s.chains.nodupKeys]
  change Option.map _ (((s.chains.lookup genesisHash).map _).or _) = _
  cases s.chains.lookup genesisHash <;> rfl

/-- A chain of three nodes whose nodes are removed one by one and which then readmits one: the
last removal drops the chain's entry and its highest count, the readmission starts a new entry
from the current count, and the next drain overwrites the stored maximum of 3 with 2. -/
theorem drain_lowers_max_node_count :
    ∃ first run, first = (Run.fresh [] 10 [] true).steps
        [.addNode 7 1 1 ⟨"A", "a"⟩, .addNode 7 1 2 ⟨"A", "b"⟩, .addNode 7 1 3 ⟨"A", "c"⟩,
          .drainUpdatesForAllFeeds, .drainChainUpdates] ∧
      run = first.steps [.removeNode 1 1, .removeNode 1 2, .removeNode 1 3, .addNode 7 1 4 ⟨"A", "d"⟩,
        .drainUpdatesForAllFeeds] ∧
      Reachable FreshPairs run ∧ first.state.getChainMaxNodeCount 7 = some 3 ∧
      run.state.getChainMaxNodeCount 7 = some 2 :=
  ⟨_, _, rfl, rfl, .steps _ (.steps _ (.fresh [] 10 [] true) (by decide)) (by decide), by decide⟩

/-- `Metadata::update` reports a change exactly when the map it leaves differs from the one it
was given; it leaves every chain of the chains map with the chain's highest count and every
other entry as it was.  So `drain_updates_for_all_feeds` attempts to write the metadata file,
when a path is configured, exactly when some chain's highest count differs from the persisted
one, and it writes the whole new map. -/
theorem metadata_written_exactly_on_change (metadata : Metadata) (chains : HashMap BlockHash ChainUpdates)
    (s : State) :
    ((metadata.update chains.entries).2 = true ↔
        ∃ hash, (metadata.update chains.entries).1.chains.lookup hash ≠ metadata.chains.lookup hash) ∧
      (∀ hash, (metadata.update chains.entries).1.chains.lookup hash =
        ((chains.lookup hash).map fun updates => (⟨updates.highestNodeCount⟩ : ChainMetadata)).or
          (metadata.chains.lookup hash)) ∧
      (s.drainUpdatesForAllFeeds.2.2.isSome = true ↔ s.metadataPath.isSome = true ∧
        ∃ hash updates, s.chains.lookup hash = some updates ∧
          s.getChainMaxNodeCount hash ≠ some updates.highestNodeCount) ∧
      ∀ write ∈ s.drainUpdatesForAllFeeds.2.2,
        s.metadataPath = some write.1 ∧ write.2 = s.drainUpdatesForAllFeeds.1.metadata := by
  have persisted : ∀ (stored : Option ChainMetadata) (count : Nat),
      stored.map (·.highestNodeCount) ≠ some count ↔ stored ≠ some ⟨count⟩ := fun stored count => by
    rcases stored with _ | ⟨⟨stored⟩⟩ <;> simp
  refine ⟨(Metadata.update_snd_iff metadata chains).trans
      (exists_congr fun hash => (Metadata.update_lookup_ne_iff metadata chains hash).symm),
    fun hash => Metadata.lookup_foldl_updateEntry hash _ _ chains.nodupKeys, ?_, fun write member => ?_⟩
  · simp only [State.drainUpdatesForAllFeeds, State.getChainMaxNodeCount, persisted, ← Metadata.update_snd_iff]
    cases (s.metadata.update s.chains.entries).2 <;> cases s.metadataPath <;> simp
  · simp only [State.drainUpdatesForAllFeeds] at member
    split at member
    · obtain ⟨path, found, rfl⟩ := Option.mem_map.mp member
      exact ⟨found, rfl⟩
    · cases member

end TelemetryCore
