import TelemetryCore.Feed
import TelemetryCore.Roster

namespace TelemetryCore

/-!
# Late subscribers

A subscriber that arrives after the run has started has missed the earlier deltas.  It is sent
the chain's roster, the chunks `update_added_nodes_messages` builds from the underlying state's
node slice, and from then on every drain's chunks.  Here:

* the roster, applied to an empty picture, gives the underlying state's picture of the chain, and
  so, by the Feed module's invariant on the underlying state, the account's picture;
* the subscriber's invariant holds for any picture the pending deltas have already been applied
  to, in particular for the account's picture;
* hence a subscriber that takes the rosters right after `update_added_nodes_messages` and then
  applies every output shows, after every drain, the same picture as one watching from the start.

What is assumed is the Feed module's promise: no removal takes away all of the chain's nodes.
-/

/-- The picture of chain `genesisHash` a new subscriber assembles from the roster it is sent,
starting from nothing. -/
def rosterPicture (s : State) (genesisHash : BlockHash) : Picture :=
  ((s.addedNodesMessages genesisHash).getD []).flatten.foldl applyMessage fun _ => none

/-! ## The roster as a picture -/

/-- A roster entry shows its node in its slot; the finalized block and staleness it adds move no
node. -/
theorem foldl_applyMessage_rosterMessages (slot : Nat) (node : Node) (picture : Picture) :
    (State.rosterMessages slot node).foldl applyMessage picture = Function.update picture slot (some node.details) := by
  unfold State.rosterMessages
  cases node.stale <;> rfl

/-- Slot `slot` of a slice enumerated from `start`, read in the slice itself. -/
private theorem slotNode_from_cons (entry : Option Node) (rest : List (Option Node)) (start slot : Nat) :
    (if start ≤ slot then slotNode (entry :: rest) (slot - start) else none) =
      if slot = start then entry else if start + 1 ≤ slot then slotNode rest (slot - (start + 1)) else none := by
  by_cases here : slot = start
  · subst here
    simp [slotNode]
  · by_cases later : start + 1 ≤ slot
    · obtain ⟨k, rfl⟩ : ∃ k, slot = start + 1 + k := ⟨slot - (start + 1), by omega⟩
      rw [if_pos (by omega), if_neg here, if_pos later, show start + 1 + k - start = k + 1 by omega,
        show start + 1 + k - (start + 1) = k by omega]
      rfl
    · simp [here, later, show ¬start ≤ slot by omega]

section Roster

variable {α : Type} {apply : (Nat → Option α) → FeedMessage → Nat → Option α} {ofNode : Node → α}

/-- The roster messages of a slice's occupied slots, enumerated from `start`, fill each slot of the
slice that holds a node, for a subscriber that takes a node's roster entry as filling its slot,
and leave every other slot as it was. -/
theorem foldl_occupied (roster : ∀ slot node view,
      (State.rosterMessages slot node).foldl apply view = Function.update view slot (some (ofNode node))) :
    ∀ (nodes : List (Option Node)) (start : Nat) (view : Nat → Option α) (slot : Nat),
      (((nodes.enumFrom start).filterMap fun entry => entry.2.map (entry.1, ·)).flatMap fun slot =>
          State.rosterMessages slot.1 slot.2).foldl apply view slot =
        ((if start ≤ slot then slotNode nodes (slot - start) else none).map ofNode).or (view slot)
  | [], _, view, slot => by split <;> rfl
  | entry :: rest, start, view, slot => by
    rw [slotNode_from_cons, List.enumFrom_cons, List.filterMap_cons]
    cases entry with
    | none =>
      simp only [Option.map_none']
      rw [foldl_occupied roster rest (start + 1) view slot]
      by_cases here : slot = start
      · rw [if_pos here, if_neg (by omega)]
      · rw [if_neg here]
    | some node =>
      rw [Option.map_some', List.flatMap_cons, List.foldl_append, roster, foldl_occupied roster rest (start + 1)]
      by_cases here : slot = start
      · rw [if_pos here, if_neg (by omega), here, Function.update_same]
        rfl
      · rw [if_neg here, Function.update_noteq here]

/-- With node data sent, the rosters `update_added_nodes_messages` builds fill, chain by chain,
each slot with what the subscriber keeps of the node the underlying state holds in it. -/
theorem foldl_roster_updateAddedNodesMessages (roster : ∀ slot node view,
      (State.rosterMessages slot node).foldl apply view = Function.update view slot (some (ofNode node)))
    {s : State} (send : s.sendNodeData = true) (genesisHash : BlockHash) (slot : Nat) :
    ((s.updateAddedNodesMessages.addedNodesMessages genesisHash).getD []).flatten.foldl apply (fun _ => none) slot =
      (s.state.node ⟨genesisHash, slot⟩).map ofNode := by
  rw [addedNodesMessages_updateAddedNodesMessages send]
  cases found : s.state.chains.lookup genesisHash with
  | none => simp [OrdinaryState.node, found]
  | some chain =>
    rw [Option.map_some', Option.getD_some, flatten_rosterChunks, occupiedSlots, List.enum, foldl_occupied roster]
    simp [OrdinaryState.node, found, Chain.node]

end Roster

/-- With node data sent, the rosters `update_added_nodes_messages` builds show, chain by chain,
the details of the node the underlying state holds in each slot. -/
theorem rosterPicture_updateAddedNodesMessages {s : State} (send : s.sendNodeData = true)
    (genesisHash : BlockHash) (slot : Nat) :
    rosterPicture s.updateAddedNodesMessages genesisHash slot = (s.state.node ⟨genesisHash, slot⟩).map Node.details :=
  foldl_roster_updateAddedNodesMessages foldl_applyMessage_rosterMessages send genesisHash slot

/-- Along every run whose removals never take away all of chain `genesisHash`'s nodes, node
data being sent, the roster `update_added_nodes_messages` builds for the chain, applied to an
empty picture, shows in each slot the details of the live node in it, and nothing in a slot
without one. -/
theorem roster_shows_live_nodes {allowed : State → Op → Prop} {genesisHash : BlockHash} {run : Run}
    (reach : Reachable allowed run)
    (promise : ∀ s op, allowed s op → FreshPairs s op ∧ LocatesHeld s op ∧ KeepsChain genesisHash s op)
    (send : run.state.sendNodeData = true) :
    rosterPicture run.state.updateAddedNodesMessages genesisHash = livePicture run.live genesisHash :=
  funext fun slot => (rosterPicture_updateAddedNodesMessages send genesisHash slot).trans
    ((reach.mirrors promise).held slot)

theorem roster_shows_live_nodes_after_removal :
    let run := (Run.fresh [] 10 [] true).steps
      [.addNode 7 1 1 ⟨"A", "x"⟩, .addNode 7 2 1 ⟨"A", "y"⟩, .drainChainUpdates, .removeNode 1 1]
    rosterPicture run.state.updateAddedNodesMessages 7 = livePicture run.live 7 :=
  roster_shows_live_nodes (Reachable.steps _ (Reachable.fresh [] 10 [] true :
    Reachable (fun s op => FreshPairs s op ∧ LocatesHeld s op ∧ KeepsChain 7 s op) _) (by decide))
    (fun _ _ => id) (by decide)

/-! ## Joining with the account's picture -/

namespace State

variable {s : State} {genesisHash : BlockHash}

/-- The pending deltas overlay a picture: applying them twice is applying them once. -/
theorem pendingPicture_pendingPicture (picture : Picture) :
    s.pendingPicture genesisHash (s.pendingPicture genesisHash picture) = s.pendingPicture genesisHash picture := by
  funext slot
  simp only [pendingPicture]
  cases (s.pendingAdded ⟨genesisHash, slot⟩).map Node.details <;> cases s.pendingRemoved ⟨genesisHash, slot⟩ <;> rfl

/-- A subscriber whose picture the pending deltas take to the account's may as well hold the
account's picture. -/
theorem Tracks.live {live : List LiveNode} {picture : Picture} (tracks : Tracks genesisHash s live picture) :
    Tracks genesisHash s live (livePicture live genesisHash) :=
  have pending : s.pendingPicture genesisHash (livePicture live genesisHash) = livePicture live genesisHash := by
    rw [← tracks.pending, pendingPicture_pendingPicture]
  ⟨pending, fun _ => pending⟩

end State

/-- Every run is watched by the subscriber that has applied its outputs from the start. -/
theorem Reachable.watched {allowed : State → Op → Prop} {run : Run} (reach : Reachable allowed run) :
    ∃ pictures, Watched.Reachable allowed ⟨run, pictures⟩ := by
  induction reach with
  | start denylist maxThirdPartyNodes firstPartyNetworks sendNodeData metadataPath stored started =>
    exact ⟨_, .start denylist maxThirdPartyNodes firstPartyNetworks sendNodeData metadataPath stored started⟩
  | step _ permitted earlier =>
    obtain ⟨pictures, watched⟩ := earlier
    exact ⟨_, watched.step permitted⟩

/-- A subscriber that joined late: it took every chain's roster right after
`update_added_nodes_messages`, and has applied every output since. -/
inductive Watched.Joined (allowed : State → Op → Prop) : Watched → Prop
  | join {run : Run} : TelemetryCore.Reachable allowed run → allowed run.state .updateAddedNodesMessages →
      Joined allowed ⟨(run.step .updateAddedNodesMessages).1, rosterPicture (run.step .updateAddedNodesMessages).1.state⟩
  | step {watched : Watched} {op : Op} :
      Joined allowed watched → allowed watched.run.state op → Joined allowed (watched.step op)

namespace Watched.Joined

variable {allowed : State → Op → Prop}

theorem steps : ∀ {watched : Watched} (ops : List Op), Joined allowed watched →
    watched.run.Along allowed ops → Joined allowed (watched.steps ops)
  | _, [], joined, _ => joined
  | _, _ :: ops, joined, ⟨permitted, later⟩ => steps ops (joined.step permitted) later

/-- The run a late subscriber watches is a run. -/
theorem run {watched : Watched} (joined : Joined allowed watched) : TelemetryCore.Reachable allowed watched.run := by
  induction joined with
  | join reach permitted => exact reach.step permitted
  | step _ permitted earlier => exact earlier.step permitted

/-- Along every run whose removals never take away all of chain `genesisHash`'s nodes, node
data being sent, a late subscriber keeps the invariant with its picture. -/
theorem tracks {genesisHash : BlockHash} {watched : Watched} (joined : Joined allowed watched)
    (promise : ∀ s op, allowed s op → FreshPairs s op ∧ LocatesHeld s op ∧ KeepsChain genesisHash s op)
    (send : watched.run.state.sendNodeData = true) :
    State.Tracks genesisHash watched.run.state watched.run.live (watched.picture genesisHash) := by
  induction joined with
  | @join run reach permitted =>
    have sent : run.state.sendNodeData = true := (State.step_sendNodeData _).symm.trans send
    obtain ⟨pictures, watched⟩ := reach.watched
    have joining := ((watched.tracks promise sent).live.step
      (reach.mirrors promise).counts reach.consistent (reach.live_mapped promise) sent .updateAddedNodesMessages
      (promise _ _ permitted).2.2)
    have roster : rosterPicture (run.step .updateAddedNodesMessages).1.state genesisHash =
        livePicture run.live genesisHash :=
      funext fun slot => (rosterPicture_updateAddedNodesMessages sent genesisHash slot).trans
        ((reach.mirrors promise).held slot)
    show State.Tracks genesisHash (run.step .updateAddedNodesMessages).1.state (run.step .updateAddedNodesMessages).1.live
      (rosterPicture (run.step .updateAddedNodesMessages).1.state genesisHash)
    rw [roster]
    exact joining
  | step earlier permitted ih =>
    have sent : _ = true := (State.step_sendNodeData _).symm.trans send
    exact (ih sent).step (earlier.run.mirrors promise).counts earlier.run.consistent (earlier.run.live_mapped promise) sent _
      (promise _ _ permitted).2.2

end Watched.Joined

/-- After every drain that follows a late subscriber's joining, along a run whose removals never
take away all of chain `genesisHash`'s nodes, node data being sent, the subscriber shows in each
slot of the chain the details of the live node in it, and nothing in a slot without one: the
picture of a subscriber watching from the start. -/
theorem late_subscriber_sees_live_nodes {allowed : State → Op → Prop} {genesisHash : BlockHash} {watched : Watched}
    (joined : Watched.Joined allowed watched)
    (promise : ∀ s op, allowed s op → FreshPairs s op ∧ LocatesHeld s op ∧ KeepsChain genesisHash s op)
    (send : watched.run.state.sendNodeData = true) :
    (watched.step .drainChainUpdates).picture genesisHash =
      livePicture (watched.step .drainChainUpdates).run.live genesisHash :=
  ((joined.tracks promise send).drain (joined.run.mirrors promise).counts joined.run.consistent).trans
    (livePicture_map (f := ({ · with delivered := [], located := [] })) (fun _ => ⟨rfl, rfl⟩) _).symm

theorem late_subscriber_sees_live_nodes_after_joining :
    let run := (Run.fresh [] 10 [] true).steps [.addNode 7 1 1 ⟨"A", "x"⟩, .addNode 7 2 1 ⟨"A", "y"⟩, .drainChainUpdates]
    let watched := (⟨(run.step .updateAddedNodesMessages).1, rosterPicture (run.step .updateAddedNodesMessages).1.state⟩ :
      Watched).steps [.removeNode 1 1, .addNode 7 3 1 ⟨"A", "z"⟩]
    (watched.step .drainChainUpdates).picture 7 = livePicture (watched.step .drainChainUpdates).run.live 7 :=
  late_subscriber_sees_live_nodes (Watched.Joined.steps _ (Watched.Joined.join (Reachable.steps _
    (Reachable.fresh [] 10 [] true : Reachable (fun s op => FreshPairs s op ∧ LocatesHeld s op ∧ KeepsChain 7 s op) _)
    (by decide)) (by decide)) (by decide)) (fun _ _ => id) (by decide)

end TelemetryCore
