import TelemetryCore.Batched

namespace TelemetryCore

/-!
# Runs of the batching wrapper

The operations of `batched::State` as one step function, and runs from `State::new`.  Next to
the wrapper's state a run carries the spec's own account of the nodes, which needs none of
the wrapper's bookkeeping: a node is live once `add_node` admits it, until `remove_node` on
its pair or `disconnect_node` on its connection; and for each live node the payloads
delivered for its pair and the locations given to it since the last drain, in order.
-/

/-- The operations of a run. -/
inductive Op where
  | addNode (genesisHash : BlockHash) (shardConnId : ConnId) (localId : ShardNodeId)
      (node : NodeDetails)
  | updateNode (shardConnId : ConnId) (localId : ShardNodeId) (payload : Payload)
  | removeNode (shardConnId : ConnId) (localId : ShardNodeId)
  | disconnectNode (shardConnId : ConnId)
  | updateNodeLocation (nodeId : NodeId) (location : Location)
  | drainUpdatesForAllFeeds
  | drainChainUpdates
  | updateAddedNodesMessages

/-- What an operation returns. -/
inductive Output where
  | unit
  | added (result : Except MuteReason NodeId)
  | allFeeds (feed : FeedMessageSerializer) (write : Option (String × Metadata))
  | chainUpdates (updates : List (BlockHash × List FeedMessageSerializer))

/-- Whether an operation drains deltas. -/
def Op.isDrain : Op → Bool
  | .drainUpdatesForAllFeeds | .drainChainUpdates => true
  | _ => false

namespace State

/-- One operation on the wrapper. -/
def step (s : State) : Op → State × Output
  | .addNode genesisHash shardConnId localId node =>
    let result := s.addNode genesisHash shardConnId localId node
    (result.1, .added result.2)
  | .updateNode shardConnId localId payload => (s.updateNode shardConnId localId payload, .unit)
  | .removeNode shardConnId localId => (s.removeNode shardConnId localId, .unit)
  | .disconnectNode shardConnId => (s.disconnectNode shardConnId, .unit)
  | .updateNodeLocation nodeId location => (s.updateNodeLocation nodeId location, .unit)
  | .drainUpdatesForAllFeeds =>
    let result := s.drainUpdatesForAllFeeds
    (result.1, .allFeeds result.2.1 result.2.2)
  | .drainChainUpdates =>
    let result := s.drainChainUpdates
    (result.1, .chainUpdates result.2)
  | .updateAddedNodesMessages => (s.updateAddedNodesMessages, .unit)

/-- A drain: `drain_updates_for_all_feeds` followed by a fully consumed `drain_chain_updates`;
the state after it, the all-feeds payload, and the per-chain chunks. -/
def drain (s : State) :
    State × FeedMessageSerializer × List (BlockHash × List FeedMessageSerializer) :=
  let first := s.drainUpdatesForAllFeeds
  let second := first.1.drainChainUpdates
  (second.1, first.2.1, second.2)

end State

/-! ## The spec's account of the nodes -/

/-- A live node: its id, the pair it was admitted under and its details, and what was
delivered for it since the last drain. -/
structure LiveNode where
  id : NodeId
  pair : ConnId × ShardNodeId
  details : NodeDetails
  delivered : List Payload
  located : List NodeLocation
deriving DecidableEq

/-- The spec's account after one operation, given what the operation returned. -/
def liveAfter (live : List LiveNode) : Op → Output → List LiveNode
  | .addNode _ shardConnId localId node, .added (.ok nodeId) =>
    ⟨nodeId, (shardConnId, localId), node, [], []⟩ :: live
  | .updateNode shardConnId localId payload, _ =>
    live.map fun entry =>
      if entry.pair = (shardConnId, localId) then
        { entry with delivered := entry.delivered ++ [payload] }
      else entry
  | .updateNodeLocation nodeId (some loc), _ =>
    live.map fun entry =>
      if entry.id = nodeId then { entry with located := entry.located ++ [loc] } else entry
  | .removeNode shardConnId localId, _ =>
    live.filter fun entry => entry.pair ≠ (shardConnId, localId)
  | .disconnectNode shardConnId, _ => live.filter fun entry => entry.pair.1 ≠ shardConnId
  | .drainChainUpdates, _ => live.map fun entry => { entry with delivered := [], located := [] }
  | _, _ => live

/-- The wrapper's state together with the spec's account of the nodes. -/
structure Run where
  state : State
  live : List LiveNode

namespace Run

/-- One operation. -/
def step (run : Run) (op : Op) : Run × Output :=
  let result := run.state.step op
  (⟨result.1, liveAfter run.live op result.2⟩, result.2)

/-- A sequence of operations. -/
def steps : Run → List Op → Run
  | run, [] => run
  | run, op :: ops => steps (run.step op).1 ops

end Run

/-- The state `State::new` builds, when it succeeds, with no node live yet. -/
def Run.start (denylist : List String) (maxThirdPartyNodes : Nat)
    (firstPartyNetworks : List BlockHash) (sendNodeData : Bool) (metadataPath : Option String)
    (stored : Option (Except String Metadata)) : Option Run :=
  match State.new denylist maxThirdPartyNodes firstPartyNetworks sendNodeData metadataPath stored with
  | .ok s => some ⟨s, []⟩
  | .error _ => none

/-- The run `State::new` starts when no metadata path is given: no chain entries, no node live. -/
def Run.fresh (denylist : List String) (maxThirdPartyNodes : Nat) (firstPartyNetworks : List BlockHash)
    (sendNodeData : Bool) : Run :=
  let initial : State :=
    { state := OrdinaryState.new denylist maxThirdPartyNodes firstPartyNetworks
      chains := ∅
      nodeIds := ∅
      chainNodes := ∅
      removedChains := ∅
      sendNodeData
      metadata := default
      metadataPath := none }
  ⟨initial, []⟩

theorem Run.start_fresh (denylist : List String) (maxThirdPartyNodes : Nat)
    (firstPartyNetworks : List BlockHash) (sendNodeData : Bool) (stored : Option (Except String Metadata)) :
    Run.start denylist maxThirdPartyNodes firstPartyNetworks sendNodeData none stored =
      some (Run.fresh denylist maxThirdPartyNodes firstPartyNetworks sendNodeData) := by
  cases stored <;> rfl

/-- Whether each operation of `ops`, applied from `run` on, satisfies `allowed` in the state it
is applied to. -/
def Run.Along (allowed : State → Op → Prop) : Run → List Op → Prop
  | _, [] => True
  | run, op :: ops => allowed run.state op ∧ Run.Along allowed (run.step op).1 ops

instance Run.decidableAlong (allowed : State → Op → Prop) [∀ s op, Decidable (allowed s op)] :
    ∀ run ops, Decidable (Run.Along allowed run ops)
  | _, [] => isTrue trivial
  | run, op :: ops =>
    have := Run.decidableAlong allowed (run.step op).1 ops
    inferInstanceAs (Decidable (allowed run.state op ∧ Run.Along allowed (run.step op).1 ops))

/-- The runs from `State::new` whose every operation satisfies `allowed` in the state it is
applied to. -/
inductive Reachable (allowed : State → Op → Prop) : Run → Prop
  | start {run : Run} (denylist : List String) (maxThirdPartyNodes : Nat)
      (firstPartyNetworks : List BlockHash) (sendNodeData : Bool) (metadataPath : Option String)
      (stored : Option (Except String Metadata)) :
      Run.start denylist maxThirdPartyNodes firstPartyNetworks sendNodeData metadataPath stored =
        some run → Reachable allowed run
  | step {run : Run} {op : Op} :
      Reachable allowed run → allowed run.state op → Reachable allowed (run.step op).1

namespace Reachable

variable {allowed : State → Op → Prop}

theorem fresh (denylist : List String) (maxThirdPartyNodes : Nat) (firstPartyNetworks : List BlockHash)
    (sendNodeData : Bool) :
    Reachable allowed (Run.fresh denylist maxThirdPartyNodes firstPartyNetworks sendNodeData) :=
  .start denylist maxThirdPartyNodes firstPartyNetworks sendNodeData none none (Run.start_fresh _ _ _ _ _)

theorem steps : ∀ {run : Run} (ops : List Op), Reachable allowed run → run.Along allowed ops →
    Reachable allowed (run.steps ops)
  | _, [], reach, _ => reach
  | _, _ :: ops, reach, ⟨permitted, later⟩ => steps ops (reach.step permitted) later

end Reachable

/-- The callers' promise that a pair names one node: `add_node` is never given a pair that is
currently mapped. -/
def FreshPairs (s : State) : Op → Prop
  | .addNode _ shardConnId localId _ => s.nodeIds.getByRight (shardConnId, localId) = none
  | _ => True

/-- `update_node_location` is only given nodes the underlying state holds. -/
def LocatesHeld (s : State) : Op → Prop
  | .updateNodeLocation nodeId _ => (s.state.node nodeId).isSome
  | _ => True

instance (s : State) : (op : Op) → Decidable (FreshPairs s op)
  | .addNode _ shardConnId localId _ =>
    inferInstanceAs (Decidable (s.nodeIds.getByRight (shardConnId, localId) = none))
  | .updateNode .. | .removeNode .. | .disconnectNode _ | .updateNodeLocation .. | .drainUpdatesForAllFeeds
  | .drainChainUpdates | .updateAddedNodesMessages => isTrue trivial

instance (s : State) : (op : Op) → Decidable (LocatesHeld s op)
  | .updateNodeLocation nodeId _ => inferInstanceAs (Decidable ((s.state.node nodeId).isSome = true))
  | .addNode .. | .updateNode .. | .removeNode .. | .disconnectNode _ | .drainUpdatesForAllFeeds
  | .drainChainUpdates | .updateAddedNodesMessages => isTrue trivial

end TelemetryCore
