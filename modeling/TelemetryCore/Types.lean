import TelemetryCore.Collections

namespace TelemetryCore

/-!
# Identifiers, payloads, nodes and feed messages

The data the batching layer moves around.  Hashes, connection ids and shard-local ids are
compared, never computed with, so they are natural numbers.  `Node` and the way it absorbs a
payload belong to the underlying state, whose source is not among the repository's files;
they follow the spec's data model.  Fields no modelled function reads (a node's version, CPU,
network id, the contents of the statistics payloads) are left out or kept as one opaque field.
-/

/-- A chain's genesis hash (an `H256`): the identity of a chain. -/
abbrev BlockHash := Nat

/-- A shard or feed connection's id (`ConnId(u64)`). -/
abbrev ConnId := Nat

/-- A node's id local to its shard connection. -/
abbrev ShardNodeId := Nat

/-- Modelled from the spec: a node's id "encodes (chain, slot)"; the chain is named by its
genesis hash and the slot is the node's index in the chain's slot vector, which the feed
messages carry (`get_chain_node_id`). -/
structure NodeId where
  chain : BlockHash
  slot : Nat
deriving DecidableEq, Repr

/-- A block, by hash and height. -/
structure Block where
  hash : BlockHash
  height : Nat
deriving DecidableEq, Repr

/-- A node's details, fixed at admission.  Only the chain label it reports is read; `name`
stands for the fields carried to feeds unread. -/
structure NodeDetails where
  chain : String
  name : String
deriving DecidableEq, Repr

/-- The `SystemConnected` payload, carried unread. -/
structure SystemConnected where
  data : Nat
deriving DecidableEq, Repr

/-- The `SystemInterval` payload (statistics), carried unread. -/
structure SystemInterval where
  data : Nat
deriving DecidableEq, Repr

/-- The `AfgAuthoritySet` payload, carried unread. -/
structure AfgAuthoritySet where
  data : Nat
deriving DecidableEq, Repr

/-- `node_message::Payload`.  A finalization names the finalized block. -/
inductive Payload where
  | systemConnected (connected : SystemConnected)
  | systemInterval (interval : SystemInterval)
  | blockImport (block : Block)
  | notifyFinalized (finalized : Block)
  | afgAuthoritySet (authority : AfgAuthoritySet)
deriving DecidableEq, Repr

/-- `NodeLocation`; its `f32` coordinates are carried unread, so integers stand for them. -/
structure NodeLocation where
  latitude : Int
  longitude : Int
  city : String
deriving DecidableEq, Repr

/-- `find_location::Location`: a node's location, when the locator found one. -/
abbrev Location := Option NodeLocation

/-- Modelled from the spec: the underlying state's record of one node. -/
structure Node where
  details : NodeDetails
  best : Block
  finalized : Block
  stale : Bool
  location : Location
  interval : Option SystemInterval
  authoritySet : Option AfgAuthoritySet
deriving DecidableEq, Repr

/-- A node as admitted: no blocks yet, no location, no statistics. -/
def Node.new (details : NodeDetails) : Node :=
  ⟨details, ⟨0, 0⟩, ⟨0, 0⟩, false, none, none, none⟩

/-- Modelled from the spec: how a node absorbs one payload.  "Payloads with out-of-order
block heights less than the current best are ignored": an import or a finalization below the
current height leaves the block as it is.  An interval refreshes the statistics and clears
staleness. -/
def Node.absorb (node : Node) : Payload → Node
  | .systemConnected _ => node
  | .systemInterval interval => { node with interval := some interval, stale := false }
  | .blockImport block =>
    if block.height < node.best.height then node else { node with best := block }
  | .notifyFinalized block =>
    if block.height < node.finalized.height then node else { node with finalized := block }
  | .afgAuthoritySet authority => { node with authoritySet := some authority }

/-- The feed messages the core pushes (`feed_message`), node ids being chain-local slots.
What the underlying `update_node` pushes for a payload is opaque to the core and is recorded
as one `nodeUpdated` message naming the payload. -/
inductive FeedMessage where
  | removedChain (genesisHash : BlockHash)
  | addedChain (label : String) (genesisHash : BlockHash) (nodeCount highestNodeCount : Nat)
  | removedNode (id : Nat)
  | addedNode (id : Nat) (node : Node)
  | locatedNode (id : Nat) (latitude longitude : Int) (city : String)
  | finalizedBlock (id : Nat) (height : Nat) (hash : BlockHash)
  | staleNode (id : Nat)
  | nodeUpdated (id : Nat) (payload : Payload)
deriving DecidableEq, Repr

/-- A `FeedMessageSerializer`: the messages pushed into it, in order. -/
abbrev FeedMessageSerializer := List FeedMessage

/-- `into_finalized`: the serialized bytes, or nothing when no message was pushed. -/
def intoFinalized (feed : FeedMessageSerializer) : Option FeedMessageSerializer :=
  if feed.isEmpty then none else some feed

end TelemetryCore
