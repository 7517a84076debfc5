import TelemetryCore.Transient

namespace TelemetryCore

/-!
# The roster for new subscribers

`update_added_nodes_messages` rebuilds, for every chain the underlying state holds, the chunks
a new subscriber is sent: the chain's slots are enumerated, cut into windows of
`MSGS_PER_WS_MSG` consecutive indices, and each window with an occupied slot gives one chunk
announcing those slots in order.  Here the chunking is read back as windows of slot indices,
slot `i` falling in window `i / MSGS_PER_WS_MSG`, and the roster is shown to list every held
node once, in slot order, window by window.
-/

/-- The occupied slots of a node slice, with their indices, in slot order. -/
def occupiedSlots (nodes : List (Option Node)) : List (Nat × Node) :=
  nodes.enum.filterMap fun entry => entry.2.map (entry.1, ·)

/-- The chunk window `window` of a node slice should give: the roster messages of its occupied
slots, or no chunk when it has none. -/
def windowChunk (nodes : List (Option Node)) (window : Nat) : Option ToFeedWebsocket :=
  let slots := (occupiedSlots nodes).filter fun slot => slot.1 / msgsPerWsMsg = window
  if slots.isEmpty then none else some (slots.flatMap fun slot => State.rosterMessages slot.1 slot.2)

/-! ## Windows of enumerated slots -/

private theorem enumFrom_take {α : Type} : ∀ (items : List α) (start count : Nat),
    (items.enumFrom start).take count = (items.take count).enumFrom start
  | [], _, _ => by simp
  | _ :: _, _, 0 => by simp
  | item :: items, start, count + 1 => by simp [enumFrom_take items (start + 1) count]

private theorem enumFrom_drop {α : Type} : ∀ (items : List α) (start count : Nat),
    (items.enumFrom start).drop count = (items.drop count).enumFrom (start + count)
  | [], _, _ => by simp
  | _ :: _, _, 0 => by simp
  | item :: items, start, count + 1 => by
    rw [List.enumFrom_cons, List.drop_succ_cons, List.drop_succ_cons, enumFrom_drop items (start + 1) count,
      Nat.add_right_comm]
    rfl

/-- Chunking slots enumerated from window `window` on gives the windows in order, each holding
exactly the entries whose index falls in it. -/
theorem chunks_enumFrom {α : Type} (items : List α) (window : Nat) :
    chunks msgsPerWsMsg (items.enumFrom (msgsPerWsMsg * window)) =
      (List.range' window ((items.length + msgsPerWsMsg - 1) / msgsPerWsMsg)).map fun k =>
        (items.enumFrom (msgsPerWsMsg * window)).filter fun entry => entry.1 / msgsPerWsMsg = k := by
  cases items with
  | nil => simp [chunks, msgsPerWsMsg]
  | cons item rest =>
    have entries : (item :: rest).enumFrom (msgsPerWsMsg * window) ≠ [] := by simp
    have first := enumFrom_take (item :: rest) (msgsPerWsMsg * window) msgsPerWsMsg
    have later : ((item :: rest).enumFrom (msgsPerWsMsg * window)).drop msgsPerWsMsg =
        ((item :: rest).drop msgsPerWsMsg).enumFrom (msgsPerWsMsg * (window + 1)) := by
      rw [enumFrom_drop, Nat.mul_succ]
    have count : ((item :: rest).length + msgsPerWsMsg - 1) / msgsPerWsMsg =
        (((item :: rest).drop msgsPerWsMsg).length + msgsPerWsMsg - 1) / msgsPerWsMsg + 1 := by
      simp only [List.length_drop, List.length_cons, msgsPerWsMsg]; omega
    -- The first chunk is window `window`; the rest lies in later windows.
    have inFirst : ∀ entry ∈ ((item :: rest).enumFrom (msgsPerWsMsg * window)).take msgsPerWsMsg,
        entry.1 / msgsPerWsMsg = window := fun entry member => by
      rw [first] at member
      have low := List.le_fst_of_mem_enumFrom member
      have high := List.fst_lt_add_of_mem_enumFrom member
      have short := List.length_take_le msgsPerWsMsg (item :: rest)
      simp only [msgsPerWsMsg] at *; omega
    have firstOnly : ∀ k ≠ window,
        (((item :: rest).enumFrom (msgsPerWsMsg * window)).take msgsPerWsMsg).filter
          (fun entry => entry.1 / msgsPerWsMsg = k) = [] := fun k other =>
      List.filter_eq_nil_iff.mpr fun entry member same =>
        other (by simp only [inFirst entry member, decide_eq_true_eq] at same; exact same.symm)
    have laterOnly : (((item :: rest).enumFrom (msgsPerWsMsg * window)).drop msgsPerWsMsg).filter
        (fun entry => entry.1 / msgsPerWsMsg = window) = [] :=
      List.filter_eq_nil_iff.mpr fun entry member same => by
        rw [later] at member
        have low := List.le_fst_of_mem_enumFrom member
        simp only [msgsPerWsMsg, decide_eq_true_eq] at *; omega
    rw [chunks_eq_take_drop (by decide) entries, later, chunks_enumFrom _ (window + 1), count,
      List.range'_succ, List.map_cons, ← later]
    conv_rhs => rw [← List.take_append_drop msgsPerWsMsg ((item :: rest).enumFrom (msgsPerWsMsg * window))]
    congr 1
    · rw [List.filter_append, List.filter_eq_self.mpr (by simpa using inFirst), laterOnly, List.append_nil]
    · refine List.map_congr_left fun k member => ?_
      rw [List.filter_append, firstOnly k (by have := (List.mem_range'_1.mp member).1; omega), List.nil_append]
termination_by items.length
decreasing_by simp only [List.length_drop, List.length_cons, msgsPerWsMsg]; omega

/-! ## A window's chunk -/

/-- Flattening enumerated slots with a rule that announces occupied slots and skips free ones
announces the occupied slots. -/
private theorem flatMap_occupied {F : Nat × Option Node → FeedMessageSerializer}
    (occupied : ∀ slot node, F (slot, some node) = State.rosterMessages slot node) (free : ∀ slot, F (slot, none) = []) :
    ∀ entries : List (Nat × Option Node), entries.flatMap F =
      (entries.filterMap fun entry => entry.2.map (entry.1, ·)).flatMap fun slot => State.rosterMessages slot.1 slot.2
  | [] => rfl
  | ⟨slot, none⟩ :: rest => by simp [free, flatMap_occupied occupied free rest]
  | ⟨slot, some node⟩ :: rest => by simp [occupied, flatMap_occupied occupied free rest]

private theorem filterMap_filter_window (window : Nat) : ∀ entries : List (Nat × Option Node),
    (entries.filter fun entry => entry.1 / msgsPerWsMsg = window).filterMap (fun entry => entry.2.map (entry.1, ·)) =
      (entries.filterMap fun entry => entry.2.map (entry.1, ·)).filter fun slot => slot.1 / msgsPerWsMsg = window
  | [] => rfl
  | ⟨slot, node⟩ :: rest => by
    cases node <;> by_cases same : slot / msgsPerWsMsg = window <;>
      simp [List.filter_cons, same, filterMap_filter_window window rest]

/-- A chunk is finalized exactly when it announces some slot. -/
private theorem intoFinalized_flatMap (slots : List (Nat × Node)) :
    intoFinalized (slots.flatMap fun slot => State.rosterMessages slot.1 slot.2) =
      if slots.isEmpty then none else some (slots.flatMap fun slot => State.rosterMessages slot.1 slot.2) := by
  cases slots <;> simp [intoFinalized, State.rosterMessages]

/-- The roster of a node slice is, in window order, the chunk each window should give. -/
theorem rosterChunks_eq_windows (nodes : List (Option Node)) :
    State.rosterChunks nodes =
      (List.range ((nodes.length + msgsPerWsMsg - 1) / msgsPerWsMsg)).filterMap (windowChunk nodes) := by
  have enumerated : nodes.enum = nodes.enumFrom (msgsPerWsMsg * 0) := rfl
  rw [State.rosterChunks, enumerated, chunks_enumFrom, List.filterMap_map, List.range_eq_range']
  refine List.filterMap_congr fun window _ => ?_
  rw [Function.comp_apply, flatMap_occupied (fun _ _ => rfl) (fun _ => rfl), filterMap_filter_window,
    intoFinalized_flatMap, ← enumerated]
  rfl

/-- Dropping the chunks that announce nothing loses no message. -/
private theorem flatten_filterMap_intoFinalized {α : Type} (f : α → FeedMessageSerializer) :
    ∀ items : List α, (items.filterMap fun item => intoFinalized (f item)).flatten = (items.map f).flatten
  | [] => rfl
  | item :: rest => by
    rw [List.filterMap_cons, List.map_cons, List.flatten_cons, ← flatten_filterMap_intoFinalized f rest]
    cases f item <;> rfl

/-- Concatenated, the roster of a node slice announces its occupied slots in slot order. -/
theorem flatten_rosterChunks (nodes : List (Option Node)) :
    (State.rosterChunks nodes).flatten =
      (occupiedSlots nodes).flatMap fun slot => State.rosterMessages slot.1 slot.2 := by
  rw [State.rosterChunks, flatten_filterMap_intoFinalized,
    State.flatten_map_flatMap, flatten_chunks, flatMap_occupied (fun _ _ => rfl) (fun _ => rfl)]
  rfl

/-! ## The roster after `update_added_nodes_messages` -/

/-- Inserting every entry of a keyed list builds a map with the list's lookups. -/
private theorem lookup_foldl_insert {β γ : Type} (F : β → γ) (hash : BlockHash) :
    ∀ (entries : List (Σ _ : BlockHash, β)) (m : HashMap BlockHash γ), entries.NodupKeys →
      (entries.foldl (fun m entry => m.insert entry.1 (F entry.2)) m).lookup hash =
        ((entries.dlookup hash).map F).or (m.lookup hash)
  | [], _, _ => rfl
  | ⟨key, value⟩ :: rest, m, nodup => by
    rw [List.nodupKeys_cons] at nodup
    rw [List.foldl_cons, lookup_foldl_insert F hash rest _ nodup.2]
    by_cases same : hash = key
    · subst same
      simp [List.dlookup_cons_eq, List.dlookup_eq_none.mpr nodup.1]
    · simp [same, List.dlookup_cons_ne rest ⟨key, value⟩ same, AList.lookup_insert_ne same]

/-- With node data sent, `update_added_nodes_messages` gives every chain the underlying state
holds the roster of its slots, and no other chain a roster. -/
theorem addedNodesMessages_updateAddedNodesMessages {s : State} (send : s.sendNodeData = true)
    (genesisHash : BlockHash) :
    s.updateAddedNodesMessages.addedNodesMessages genesisHash =
      (s.state.chains.lookup genesisHash).map fun chain => State.rosterChunks chain.nodes := by
  simp only [State.updateAddedNodesMessages, send, Bool.not_true, Bool.false_eq_true, if_false,
    State.addedNodesMessages, OrdinaryState.iterChains, List.foldl_map, StateChain.nodesSlice]
  rw [lookup_foldl_insert (fun chain : Chain => State.rosterChunks chain.nodes) genesisHash _ _
    s.state.chains.nodupKeys, AList.lookup_empty, Option.or_none]
  rfl

/-- With node data sent, after `update_added_nodes_messages` a chain has a roster exactly when
the underlying state holds it.  Concatenated, a chain's roster announces each occupied slot of
its node slice once, in slot order: `AddedNode`, `FinalizedBlock` with the node's finalized
block, and `StaleNode` when the node is stale.  Its chunks are the windows of `MSGS_PER_WS_MSG`
consecutive slot indices that hold a node, in window order. -/
theorem roster_lists_held_nodes_in_slot_order {s : State} (send : s.sendNodeData = true)
    (genesisHash : BlockHash) :
    ((s.updateAddedNodesMessages.addedNodesMessages genesisHash).isSome = true ↔
        genesisHash ∈ s.state.chains) ∧
      ∀ chain, s.state.chains.lookup genesisHash = some chain →
        ((s.updateAddedNodesMessages.addedNodesMessages genesisHash).getD []).flatten =
            ((occupiedSlots chain.nodes).flatMap fun slot =>
              [.addedNode slot.1 slot.2, .finalizedBlock slot.1 slot.2.finalized.height slot.2.finalized.hash] ++
                if slot.2.stale then [.staleNode slot.1] else []) ∧
          s.updateAddedNodesMessages.addedNodesMessages genesisHash =
            some ((List.range ((chain.nodes.length + msgsPerWsMsg - 1) / msgsPerWsMsg)).filterMap
              (windowChunk chain.nodes)) := by
  rw [addedNodesMessages_updateAddedNodesMessages send]
  refine ⟨by simp [AList.lookup_isSome], fun chain found => ?_⟩
  rw [found, Option.map_some', Option.getD_some, flatten_rosterChunks, rosterChunks_eq_windows]
  exact ⟨rfl, rfl⟩

theorem roster_lists_held_nodes_in_slot_order_admitted :
    let s := ((Run.fresh [] 10 [] true).steps [.addNode 7 1 1 ⟨"A", "a"⟩, .addNode 7 1 2 ⟨"A", "b"⟩]).state
    s.sendNodeData = true ∧
      ((s.updateAddedNodesMessages.addedNodesMessages 7).isSome = true ↔ 7 ∈ s.state.chains) :=
  ⟨by decide, (roster_lists_held_nodes_in_slot_order (by decide) 7).1⟩

end TelemetryCore
