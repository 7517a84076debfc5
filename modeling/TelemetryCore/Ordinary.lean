import TelemetryCore.Types

namespace TelemetryCore

/-!
# The underlying node state

`batched.rs` wraps `state::State`, imported there as `OrdinaryState`, whose source is not
among the repository's files.  Everything in this module is modelled from the spec's
section 4.A and its data model: chains keyed by genesis hash, each holding its nodes in a
dense slot vector whose freed slots are reused, a label chosen by the most common reported
chain name, a denylist, and a quota on nodes of chains outside the built-in first-party set.
A chain is created by its first admitted node and destroyed when its last node leaves.

The built-in first-party set is not in the repository either; it is a parameter of the
state.  The lemmas at the end say, once for each operation, which nodes and counts change,
so that later modules never unfold these definitions.
-/

/-! ## Labels -/

/-- Count one more member reporting `label`; a new label goes last. -/
def bumpLabel (label : String) : List (String × Nat) → List (String × Nat)
  | [] => [(label, 1)]
  | (other, count) :: rest =>
    if other = label then (other, count + 1) :: rest else (other, count) :: bumpLabel label rest

/-- Count one member fewer reporting `label`. -/
def dropLabel (label : String) : List (String × Nat) → List (String × Nat)
  | [] => []
  | (other, count) :: rest =>
    if other = label then (other, count - 1) :: rest else (other, count) :: dropLabel label rest

/-- Modelled from the spec: "the label with the highest count is active; ties are broken by
stable insertion order" (the earliest inserted label wins a tie). -/
def bestLabel (labels : List (String × Nat)) : String :=
  (labels.foldl (fun best entry => if best.2 < entry.2 then entry else best) ("", 0)).1

/-! ## Chains -/

/-- Modelled from the spec: a chain's member count per reported label, in insertion order,
and its nodes in a dense slot vector, where a freed slot is empty until it is reused. -/
structure Chain where
  labels : List (String × Nat)
  nodes : List (Option Node)

/-- A chain before its first node. -/
def Chain.empty : Chain := ⟨[], []⟩

/-- The chain's displayed label. -/
def Chain.label (chain : Chain) : String := bestLabel chain.labels

/-- The number of nodes in the chain. -/
def Chain.nodeCount (chain : Chain) : Nat := chain.nodes.countP Option.isSome

/-- The node in a slot of a slot vector, if the slot is occupied. -/
def slotNode : List (Option Node) → Nat → Option Node
  | [], _ => none
  | entry :: _, 0 => entry
  | _ :: rest, slot + 1 => slotNode rest slot

/-- The node in a slot of the chain, if the slot is occupied. -/
def Chain.node (chain : Chain) (slot : Nat) : Option Node := slotNode chain.nodes slot

/-- Put a node into a free slot, growing the vector when none is free; the slot is returned.
The spec asks that freed slots be reused and leaves open which one the free-list hands out;
we take the lowest. -/
def allocate (node : Node) : List (Option Node) → List (Option Node) × Nat
  | [] => ([some node], 0)
  | none :: rest => (some node :: rest, 0)
  | some other :: rest =>
    let (rest, slot) := allocate node rest
    (some other :: rest, slot + 1)

/-! ### Slots -/

theorem allocate_fresh (node : Node) :
    ∀ nodes : List (Option Node), slotNode nodes (allocate node nodes).2 = none
  | [] => rfl
  | none :: _ => rfl
  | some _ :: rest => allocate_fresh node rest

theorem allocate_placed (node : Node) :
    ∀ nodes : List (Option Node), slotNode (allocate node nodes).1 (allocate node nodes).2 = some node
  | [] => rfl
  | none :: _ => rfl
  | some _ :: rest => allocate_placed node rest

theorem allocate_other (node : Node) :
    ∀ (nodes : List (Option Node)) (slot : Nat), slot ≠ (allocate node nodes).2 →
      slotNode (allocate node nodes).1 slot = slotNode nodes slot
  | [], 0, different => absurd rfl different
  | [], _ + 1, _ => by simp [allocate, slotNode]
  | none :: _, 0, different => absurd rfl different
  | none :: _, _ + 1, _ => rfl
  | some _ :: _, 0, _ => rfl
  | some _ :: rest, slot + 1, different =>
    allocate_other node rest slot (fun same => different (congrArg (· + 1) same))

theorem countP_allocate (node : Node) :
    ∀ nodes : List (Option Node),
      (allocate node nodes).1.countP Option.isSome = nodes.countP Option.isSome + 1
  | [] => rfl
  | none :: rest => by simp [allocate]
  | some _ :: rest => by simp [allocate, countP_allocate node rest]

theorem slotNode_set_self {value : Option Node} :
    ∀ (nodes : List (Option Node)) (slot : Nat), (slotNode nodes slot).isSome →
      slotNode (nodes.set slot value) slot = value
  | _ :: _, 0, _ => rfl
  | _ :: rest, slot + 1, occupied => slotNode_set_self rest slot occupied

theorem slotNode_set_ne (value : Option Node) :
    ∀ (nodes : List (Option Node)) {slot other : Nat}, other ≠ slot →
      slotNode (nodes.set slot value) other = slotNode nodes other
  | [], _, _, _ => rfl
  | _ :: _, 0, 0, different => absurd rfl different
  | _ :: _, 0, _ + 1, _ => rfl
  | _ :: _, _ + 1, 0, _ => rfl
  | _ :: rest, _ + 1, _ + 1, different =>
    slotNode_set_ne value rest (fun same => different (congrArg (· + 1) same))

theorem slotNode_eq_none_of_countP_eq_zero :
    ∀ {nodes : List (Option Node)}, nodes.countP Option.isSome = 0 → ∀ slot, slotNode nodes slot = none
  | [], _, _ => rfl
  | none :: _, _, 0 => rfl
  | none :: _, empty, slot + 1 => slotNode_eq_none_of_countP_eq_zero (by simpa using empty) slot
  | some _ :: _, empty, _ => by simp at empty

/-- Emptying an occupied slot removes exactly one node from the count. -/
theorem countP_set_none :
    ∀ (nodes : List (Option Node)) (slot : Nat), (slotNode nodes slot).isSome →
      (nodes.set slot none).countP Option.isSome + 1 = nodes.countP Option.isSome
  | some _ :: _, 0, _ => by simp
  | none :: rest, slot + 1, occupied => by simpa using countP_set_none rest slot occupied
  | some _ :: rest, slot + 1, occupied => by simpa using countP_set_none rest slot occupied

/-- Rewriting an occupied slot keeps the count. -/
theorem countP_set_some (replacement : Node) :
    ∀ (nodes : List (Option Node)) (slot : Nat), (slotNode nodes slot).isSome →
      (nodes.set slot (some replacement)).countP Option.isSome = nodes.countP Option.isSome
  | some _ :: _, 0, _ => by simp
  | none :: rest, slot + 1, occupied => by simpa using countP_set_some replacement rest slot occupied
  | some _ :: rest, slot + 1, occupied => by simpa using countP_set_some replacement rest slot occupied

/-- `StateChain`: a view of one chain with its genesis hash. -/
structure StateChain where
  genesisHash : BlockHash
  chain : Chain

/-- `nodes_slice`: the chain's slot vector. -/
def StateChain.nodesSlice (view : StateChain) : List (Option Node) := view.chain.nodes

/-! ## The state -/

/-- Modelled from the spec: chains by genesis hash, the denylist of chain labels, the quota on
nodes of third-party chains, and the built-in set of first-party chains. -/
structure OrdinaryState where
  chains : HashMap BlockHash Chain
  denylist : List String
  maxThirdPartyNodes : Nat
  firstPartyNetworks : List BlockHash

namespace OrdinaryState

/-- `State::new`: no chains yet. -/
def new (denylist : List String) (maxThirdPartyNodes : Nat)
    (firstPartyNetworks : List BlockHash) : OrdinaryState :=
  ⟨∅, denylist, maxThirdPartyNodes, firstPartyNetworks⟩

/-- The node a `NodeId` names, if the state holds it. -/
def node (st : OrdinaryState) (nodeId : NodeId) : Option Node :=
  (st.chains.lookup nodeId.chain).bind (·.node nodeId.slot)

/-- The number of nodes the state holds in a chain. -/
def nodeCount (st : OrdinaryState) (genesisHash : BlockHash) : Nat :=
  ((st.chains.lookup genesisHash).map Chain.nodeCount).getD 0

/-- The number of nodes on chains outside the first-party set. -/
def thirdPartyNodeCount (st : OrdinaryState) : Nat :=
  ((st.chains.entries.filter (fun entry => entry.1 ∉ st.firstPartyNetworks)).map
    (·.2.nodeCount)).foldr (· + ·) 0

/-- What `add_node` reports on admission. -/
structure NodeAddedToChain where
  id : NodeId
  newChainLabel : String
  node : Node
  chainNodeCount : Nat
  hasChainLabelChanged : Bool

/-- `AddNodeResult`. -/
inductive AddNodeResult where
  | chainOnDenyList
  | chainOverQuota
  | nodeAddedToChain (details : NodeAddedToChain)

/-- Modelled from the spec: `add_node`.  A denied label or an exhausted third-party quota
leaves the state unchanged; otherwise the node takes a free slot of its chain, created if
need be, and the label is recomputed. -/
def addNode (st : OrdinaryState) (genesisHash : BlockHash) (details : NodeDetails) :
    AddNodeResult × OrdinaryState :=
  if details.chain ∈ st.denylist then (.chainOnDenyList, st)
  else if genesisHash ∉ st.firstPartyNetworks ∧
      st.maxThirdPartyNodes < st.thirdPartyNodeCount + 1 then (.chainOverQuota, st)
  else
    let chain := (st.chains.lookup genesisHash).getD Chain.empty
    let node := Node.new details
    let placed := allocate node chain.nodes
    let added : Chain := ⟨bumpLabel details.chain chain.labels, placed.1⟩
    (.nodeAddedToChain ⟨⟨genesisHash, placed.2⟩, added.label, node, added.nodeCount,
        decide (added.label ≠ chain.label)⟩,
      { st with chains := st.chains.insert genesisHash added })

/-- What `remove_node` reports. -/
structure RemovedNode where
  chainNodeCount : Nat
  newChainLabel : String

/-- Modelled from the spec: `remove_node` frees the slot and updates the label, destroying the
chain when its last node leaves; an unknown node gives `none`. -/
def removeNode (st : OrdinaryState) (nodeId : NodeId) : Option RemovedNode × OrdinaryState :=
  match st.chains.lookup nodeId.chain with
  | none => (none, st)
  | some chain =>
    match chain.node nodeId.slot with
    | none => (none, st)
    | some node =>
      let rest : Chain := ⟨dropLabel node.details.chain chain.labels,
        chain.nodes.set nodeId.slot none⟩
      (some ⟨rest.nodeCount, rest.label⟩,
        { st with chains := if rest.nodeCount = 0 then st.chains.erase nodeId.chain
                            else st.chains.insert nodeId.chain rest })

/-- Replace a held node's record. -/
def setNode (st : OrdinaryState) (nodeId : NodeId) (node : Node) : OrdinaryState :=
  match st.chains.lookup nodeId.chain with
  | none => st
  | some chain =>
    { st with
      chains := st.chains.insert nodeId.chain ⟨chain.labels, chain.nodes.set nodeId.slot (some node)⟩ }

/-- Modelled from the spec: `update_node` applies one payload to a held node and pushes the
messages it causes. -/
def updateNode (st : OrdinaryState) (nodeId : NodeId) (payload : Payload)
    (feed : FeedMessageSerializer) : OrdinaryState × FeedMessageSerializer :=
  match st.node nodeId with
  | none => (st, feed)
  | some node => (st.setNode nodeId (node.absorb payload), feed ++ [.nodeUpdated nodeId.slot payload])

/-- Modelled from the spec: `update_node_location` records a held node's location. -/
def updateNodeLocation (st : OrdinaryState) (nodeId : NodeId) (location : Location) :
    OrdinaryState :=
  match st.node nodeId with
  | none => st
  | some node => st.setNode nodeId { node with location }

/-- Modelled from the spec: `get_chain_by_node_id` looks up the chain the id encodes; whether
the id's slot is occupied is not consulted. -/
def getChainByNodeId (st : OrdinaryState) (nodeId : NodeId) : Option StateChain :=
  (st.chains.lookup nodeId.chain).map (fun chain => ⟨nodeId.chain, chain⟩)

/-- `get_chain_by_genesis_hash`. -/
def getChainByGenesisHash (st : OrdinaryState) (genesisHash : BlockHash) : Option StateChain :=
  (st.chains.lookup genesisHash).map (fun chain => ⟨genesisHash, chain⟩)

/-- `iter_chains`. -/
def iterChains (st : OrdinaryState) : List StateChain :=
  st.chains.entries.map (fun entry => ⟨entry.1, entry.2⟩)

/-! ### What each operation changes -/

variable {st st' : OrdinaryState}

/-- Everything an admission changes: the node takes a slot of its chain that was free, the
chain's count goes up by one and its label becomes the one reported; every other node and every
other chain is untouched. -/
structure Admits (st : OrdinaryState) (genesisHash : BlockHash) (details : NodeDetails)
    (added : NodeAddedToChain) (st' : OrdinaryState) : Prop where
  chain_eq : added.id.chain = genesisHash
  fresh : st.node added.id = none
  node_eq : added.node = Node.new details
  holds : st'.node added.id = some added.node
  frame : ∀ other, other ≠ added.id → st'.node other = st.node other
  count_succ : st'.nodeCount genesisHash = st.nodeCount genesisHash + 1
  chainNodeCount_eq : added.chainNodeCount = st'.nodeCount genesisHash
  count_frame : ∀ other, other ≠ genesisHash → st'.nodeCount other = st.nodeCount other
  label_eq : (st'.chains.lookup genesisHash).map Chain.label = some added.newChainLabel
  chain_frame : ∀ other, other ≠ genesisHash → st'.chains.lookup other = st.chains.lookup other

theorem addNode_admits {genesisHash : BlockHash} {details : NodeDetails} {added : NodeAddedToChain}
    (admitted : st.addNode genesisHash details = (.nodeAddedToChain added, st')) :
    Admits st genesisHash details added st' := by
  unfold addNode at admitted
  split_ifs at admitted
  · simp at admitted
  · simp at admitted
  simp only [Prod.mk.injEq, AddNodeResult.nodeAddedToChain.injEq] at admitted
  obtain ⟨rfl, rfl⟩ := admitted
  set chain := (st.chains.lookup genesisHash).getD Chain.empty with chainDef
  have nodeInChain : ∀ slot, st.node ⟨genesisHash, slot⟩ = slotNode chain.nodes slot := by
    intro slot
    cases found : st.chains.lookup genesisHash <;>
      simp [node, chainDef, found, Chain.node, Chain.empty, slotNode]
  have countOfChain : st.nodeCount genesisHash = chain.nodes.countP Option.isSome := by
    cases found : st.chains.lookup genesisHash <;>
      simp [nodeCount, chainDef, found, Chain.empty, Chain.nodeCount]
  refine ⟨rfl, ?_, rfl, ?_, ?_, ?_, ?_, ?_, by simp, fun other different => AList.lookup_insert_ne different⟩
  · exact (nodeInChain _).trans (allocate_fresh _ _)
  · simp [node, Chain.node, allocate_placed]
  · rintro ⟨otherChain, otherSlot⟩ different
    by_cases sameChain : otherChain = genesisHash
    · subst sameChain
      have slotDifferent : otherSlot ≠ (allocate (Node.new details) chain.nodes).2 :=
        fun same => different (by rw [same])
      simp only [node, AList.lookup_insert, Option.some_bind, Chain.node]
      rw [allocate_other _ _ _ slotDifferent]
      exact (nodeInChain otherSlot).symm
    · simp [node, AList.lookup_insert_ne sameChain]
  · rw [countOfChain]
    simp [nodeCount, Chain.nodeCount, countP_allocate]
  · simp [nodeCount]
  · intro other different
    simp [nodeCount, AList.lookup_insert_ne different]

/-- Everything a removal changes: the node's slot is freed, its chain's count goes down by one
and, while the chain keeps nodes, its label becomes the one reported; every other node and every
other chain is untouched. -/
structure Removes (st : OrdinaryState) (nodeId : NodeId) (removed : RemovedNode)
    (st' : OrdinaryState) : Prop where
  held : (st.node nodeId).isSome
  gone : st'.node nodeId = none
  frame : ∀ other, other ≠ nodeId → st'.node other = st.node other
  count_succ : st'.nodeCount nodeId.chain + 1 = st.nodeCount nodeId.chain
  chainNodeCount_eq : removed.chainNodeCount = st'.nodeCount nodeId.chain
  count_frame : ∀ other, other ≠ nodeId.chain → st'.nodeCount other = st.nodeCount other
  label_eq : removed.chainNodeCount ≠ 0 →
    (st'.chains.lookup nodeId.chain).map Chain.label = some removed.newChainLabel
  chain_frame : ∀ other, other ≠ nodeId.chain → st'.chains.lookup other = st.chains.lookup other

theorem removeNode_removes {nodeId : NodeId} {removed : RemovedNode}
    (removal : st.removeNode nodeId = (some removed, st')) : Removes st nodeId removed st' := by
  obtain ⟨chainHash, slot⟩ := nodeId
  unfold removeNode at removal
  split at removal
  · simp at removal
  rename_i chain found
  split at removal
  · simp at removal
  rename_i removedNode occupied
  simp only [Prod.mk.injEq, Option.some.injEq] at removal
  obtain ⟨rfl, rfl⟩ := removal
  have heldSlot : (slotNode chain.nodes slot).isSome := by
    simp only [Chain.node] at occupied
    simp [occupied]
  have countDrop := countP_set_none chain.nodes slot heldSlot
  have nodeOfChain : ∀ other, st.node ⟨chainHash, other⟩ = slotNode chain.nodes other := by
    simp [node, found, Chain.node]
  have countOfChain : st.nodeCount chainHash = chain.nodes.countP Option.isSome := by
    simp [nodeCount, found, Chain.nodeCount]
  refine ⟨by simp [nodeOfChain, heldSlot], ?_, ?_, ?_, ?_, ?_, fun kept => ?_, fun other different => ?_⟩
  · split <;> simp [node, Chain.node, slotNode_set_self _ _ heldSlot]
  · rintro ⟨otherHash, otherSlot⟩ different
    by_cases sameChain : otherHash = chainHash
    · subst sameChain
      have slotDifferent : otherSlot ≠ slot := fun same => different (by rw [same])
      rw [nodeOfChain, ← slotNode_set_ne none chain.nodes slotDifferent]
      split
      · rename_i empty
        simp [node, slotNode_eq_none_of_countP_eq_zero empty]
      · simp [node, Chain.node]
    · split <;> simp [node, AList.lookup_erase_ne sameChain, AList.lookup_insert_ne sameChain]
  · rw [countOfChain, ← countDrop]
    split
    · rename_i empty
      simpa [nodeCount, Chain.nodeCount] using empty
    · simp [nodeCount, Chain.nodeCount]
  · split
    · rename_i empty
      simpa [nodeCount] using empty
    · simp [nodeCount]
  · intro other different
    split <;> simp [nodeCount, AList.lookup_erase_ne different, AList.lookup_insert_ne different]
  · rw [if_neg kept]
    simp
  · split <;> simp [AList.lookup_erase_ne different, AList.lookup_insert_ne different]

theorem node_setNode {nodeId : NodeId} (held : (st.node nodeId).isSome) (replacement : Node)
    (other : NodeId) :
    (st.setNode nodeId replacement).node other =
      if other = nodeId then some replacement else st.node other := by
  obtain ⟨chainHash, slot⟩ := nodeId
  obtain ⟨otherHash, otherSlot⟩ := other
  unfold setNode
  split
  · rename_i missing
    simp [node, missing] at held
  rename_i chain found
  have heldSlot : (slotNode chain.nodes slot).isSome := by simpa [node, found, Chain.node] using held
  by_cases sameChain : otherHash = chainHash
  · subst sameChain
    by_cases sameSlot : otherSlot = slot
    · subst sameSlot
      simp [node, Chain.node, slotNode_set_self _ _ heldSlot]
    · simp [node, Chain.node, found, sameSlot, slotNode_set_ne _ _ sameSlot]
  · simp [node, sameChain, AList.lookup_insert_ne sameChain]

theorem nodeCount_setNode {nodeId : NodeId} (held : (st.node nodeId).isSome) (replacement : Node)
    (genesisHash : BlockHash) : (st.setNode nodeId replacement).nodeCount genesisHash = st.nodeCount genesisHash := by
  unfold setNode
  split
  · rfl
  rename_i chain found
  have heldSlot : (slotNode chain.nodes nodeId.slot).isSome := by
    simpa [node, found, Chain.node] using held
  by_cases same : genesisHash = nodeId.chain
  · subst same
    simp [nodeCount, found, Chain.nodeCount, countP_set_some _ _ _ heldSlot]
  · simp [nodeCount, AList.lookup_insert_ne same]

/-- Replacing a node's record keeps every chain's label. -/
theorem label_setNode (nodeId : NodeId) (replacement : Node) (genesisHash : BlockHash) :
    ((st.setNode nodeId replacement).chains.lookup genesisHash).map Chain.label =
      (st.chains.lookup genesisHash).map Chain.label := by
  unfold setNode
  split
  · rfl
  rename_i chain found
  by_cases same : genesisHash = nodeId.chain
  · subst same
    simp [found, Chain.label]
  · simp [AList.lookup_insert_ne same]

theorem mem_chains_setNode (nodeId : NodeId) (replacement : Node) (genesisHash : BlockHash) :
    genesisHash ∈ (st.setNode nodeId replacement).chains ↔ genesisHash ∈ st.chains := by
  unfold setNode
  split
  · rfl
  rename_i found
  simp only [AList.mem_insert, or_iff_right_iff_imp]
  rintro rfl
  exact AList.lookup_isSome.mp (by simp [found])

theorem mem_chains_of_node {nodeId : NodeId} (held : (st.node nodeId).isSome) :
    nodeId.chain ∈ st.chains := by
  rw [← AList.lookup_isSome]
  cases found : st.chains.lookup nodeId.chain <;> simp_all [node]

theorem getChainByNodeId_genesisHash {nodeId : NodeId} {view : StateChain}
    (found : st.getChainByNodeId nodeId = some view) : view.genesisHash = nodeId.chain := by
  unfold getChainByNodeId at found
  cases lookup : st.chains.lookup nodeId.chain <;> simp_all
  rw [← found]

theorem getChainByNodeId_isSome (nodeId : NodeId) :
    (st.getChainByNodeId nodeId).isSome ↔ nodeId.chain ∈ st.chains := by
  simp [getChainByNodeId, AList.lookup_isSome]

theorem updateNode_of_node {nodeId : NodeId} {node : Node} (held : st.node nodeId = some node)
    (payload : Payload) (feed : FeedMessageSerializer) :
    st.updateNode nodeId payload feed =
      (st.setNode nodeId (node.absorb payload), feed ++ [.nodeUpdated nodeId.slot payload]) := by
  simp [updateNode, held]

theorem updateNode_of_not_held {nodeId : NodeId} (missing : st.node nodeId = none)
    (payload : Payload) (feed : FeedMessageSerializer) :
    st.updateNode nodeId payload feed = (st, feed) := by
  simp [updateNode, missing]

theorem node_updateNodeLocation (nodeId : NodeId) (location : Location) (other : NodeId) :
    (st.updateNodeLocation nodeId location).node other =
      if other = nodeId then (st.node nodeId).map ({ · with location }) else st.node other := by
  unfold updateNodeLocation
  split
  · rename_i missing
    split <;> simp_all
  · rename_i node held
    rw [node_setNode (by simp [held])]
    split <;> simp_all

theorem nodeCount_updateNodeLocation (nodeId : NodeId) (location : Location)
    (genesisHash : BlockHash) :
    (st.updateNodeLocation nodeId location).nodeCount genesisHash = st.nodeCount genesisHash := by
  unfold updateNodeLocation
  split
  · rfl
  · rename_i held
    exact nodeCount_setNode (by simp [held]) _ _

theorem mem_chains_updateNodeLocation (nodeId : NodeId) (location : Location)
    (genesisHash : BlockHash) :
    genesisHash ∈ (st.updateNodeLocation nodeId location).chains ↔ genesisHash ∈ st.chains := by
  unfold updateNodeLocation
  split
  · rfl
  · exact mem_chains_setNode _ _ _

theorem label_updateNodeLocation (nodeId : NodeId) (location : Location) (genesisHash : BlockHash) :
    ((st.updateNodeLocation nodeId location).chains.lookup genesisHash).map Chain.label =
      (st.chains.lookup genesisHash).map Chain.label := by
  unfold updateNodeLocation
  split
  · rfl
  · exact label_setNode _ _ _

/-- A removal reports a node exactly when the state holds it. -/
theorem removeNode_fst_isSome (nodeId : NodeId) :
    (st.removeNode nodeId).1.isSome = (st.node nodeId).isSome := by
  unfold removeNode node
  split
  · rename_i missing; simp [missing]
  · rename_i chain found
    simp only [found, Option.some_bind]
    split <;> simp_all

theorem exists_removeNode_of_held {nodeId : NodeId} (held : (st.node nodeId).isSome) :
    ∃ removed st', st.removeNode nodeId = (some removed, st') := by
  obtain ⟨removed, found⟩ := Option.isSome_iff_exists.mp ((removeNode_fst_isSome nodeId).trans held)
  exact ⟨removed, (st.removeNode nodeId).2, by rw [← found]⟩

/-- A removal that finds no node changes nothing. -/
theorem removeNode_of_none {nodeId : NodeId} (missing : (st.removeNode nodeId).1 = none) :
    (st.removeNode nodeId).2 = st := by
  unfold removeNode at missing ⊢
  split
  · rfl
  · split
    · rfl
    · simp_all

end OrdinaryState

end TelemetryCore
