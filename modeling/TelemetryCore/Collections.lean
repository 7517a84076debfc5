import Mathlib.Data.List.AList
import Mathlib.Data.List.Perm.Subperm

namespace TelemetryCore

/-!
# The Rust collections of the batching layer

`batched.rs` keeps its state in `HashMap`s, `HashSet`s and the `bimap` crate's `BiMap`,
and cuts its output with itertools' `chunks`.  Each is modelled by a list holding the
entries in iteration order.  A `HashMap` is a Mathlib `AList`, whose keys are distinct by
construction; a `HashSet` and a `BiMap` are structures whose proof fields forbid a repeated
element, or a left or right value paired twice.  Rust leaves the iteration order of its
hash collections unspecified, and the list order stands for one such order.
-/

/-- A `HashMap` with its entries in iteration order. -/
abbrev HashMap (α β : Type) := AList (fun _ : α => β)

namespace HashMap

variable {α β : Type} [DecidableEq α]

/-- `map.entry(key).or_default()` followed by a rewrite of that entry: the stored value, or
the default one when the key is absent, is replaced by its image under `f`. -/
def entryOrDefault [Inhabited β] (key : α) (f : β → β) (m : HashMap α β) : HashMap α β :=
  m.insert key (f ((m.lookup key).getD default))

/-- A `for (key, value) in &mut map` loop that rewrites each value in place: keys and their
order are kept. -/
def mapValues {γ : Type} (f : α → β → γ) (m : HashMap α β) : HashMap α γ :=
  ⟨m.entries.map (fun entry => ⟨entry.1, f entry.1 entry.2⟩), by
    simpa [List.NodupKeys, List.keys, Function.comp_def] using m.nodupKeys⟩

@[simp] theorem lookup_entryOrDefault [Inhabited β] (key : α) (f : β → β) (m : HashMap α β) :
    (m.entryOrDefault key f).lookup key = some (f ((m.lookup key).getD default)) :=
  AList.lookup_insert m

@[simp] theorem lookup_entryOrDefault_ne [Inhabited β] {key other : α} (f : β → β)
    (m : HashMap α β) (different : other ≠ key) :
    (m.entryOrDefault key f).lookup other = m.lookup other :=
  AList.lookup_insert_ne different

theorem lookup_entryOrDefault_eq [Inhabited β] (key other : α) (f : β → β) (m : HashMap α β) :
    (m.entryOrDefault key f).lookup other =
      if other = key then some (f ((m.lookup key).getD default)) else m.lookup other := by
  split
  · subst other; exact lookup_entryOrDefault key f m
  · exact lookup_entryOrDefault_ne f m ‹_›

private theorem dlookup_map_values {γ : Type} (f : α → β → γ) (key : α) :
    ∀ entries : List (Σ _ : α, β),
      (entries.map (fun entry => (⟨entry.1, f entry.1 entry.2⟩ : Σ _ : α, γ))).dlookup key =
        (entries.dlookup key).map (f key)
  | [] => rfl
  | ⟨first, value⟩ :: rest => by
    by_cases same : key = first
    · subst same
      simp [List.dlookup_cons_eq]
    · rw [List.map_cons, List.dlookup_cons_ne _ (⟨first, f first value⟩ : Σ _ : α, γ) same,
        List.dlookup_cons_ne _ (⟨first, value⟩ : Σ _ : α, β) same]
      exact dlookup_map_values f key rest

@[simp] theorem lookup_mapValues {γ : Type} (f : α → β → γ) (m : HashMap α β) (key : α) :
    (mapValues f m).lookup key = (m.lookup key).map (f key) :=
  dlookup_map_values f key m.entries

@[simp] theorem mem_mapValues {γ : Type} (f : α → β → γ) (m : HashMap α β) (key : α) :
    key ∈ mapValues f m ↔ key ∈ m := by
  simp only [← AList.lookup_isSome, lookup_mapValues]
  cases m.lookup key <;> rfl

end HashMap

/-- A `HashSet`: its elements in iteration order, each once. -/
structure HashSet (α : Type) where
  elems : List α
  nodup : elems.Nodup

namespace HashSet

variable {α : Type}

instance : EmptyCollection (HashSet α) := ⟨⟨[], List.nodup_nil⟩⟩

instance : Membership α (HashSet α) := ⟨fun s a => a ∈ s.elems⟩

@[simp] theorem mem_elems {a : α} {s : HashSet α} : a ∈ s.elems ↔ a ∈ s := Iff.rfl

@[simp] theorem not_mem_empty (a : α) : a ∉ (∅ : HashSet α) := List.not_mem_nil a

variable [DecidableEq α]

instance (a : α) (s : HashSet α) : Decidable (a ∈ s) :=
  inferInstanceAs (Decidable (a ∈ s.elems))

/-- `set.insert(a)`. -/
def insert (a : α) (s : HashSet α) : HashSet α := ⟨s.elems.insert a, s.nodup.insert⟩

/-- `set.remove(a)`. -/
def remove (a : α) (s : HashSet α) : HashSet α := ⟨s.elems.erase a, s.nodup.erase a⟩

@[simp] theorem mem_insert {a b : α} {s : HashSet α} : b ∈ s.insert a ↔ b = a ∨ b ∈ s :=
  List.mem_insert_iff

@[simp] theorem mem_remove {a b : α} {s : HashSet α} : b ∈ s.remove a ↔ b ≠ a ∧ b ∈ s :=
  s.nodup.mem_erase_iff

end HashSet

/-- The `bimap` crate's `BiMap`: left-right pairs in which no left value and no right value
occurs twice. -/
structure BiMap (α β : Type) where
  pairs : List (α × β)
  left_nodup : (pairs.map Prod.fst).Nodup
  right_nodup : (pairs.map Prod.snd).Nodup

namespace BiMap

variable {α β : Type}

instance : EmptyCollection (BiMap α β) := ⟨⟨[], List.nodup_nil, List.nodup_nil⟩⟩

/-- The pairs that satisfy `keep`. -/
def filter (m : BiMap α β) (keep : α × β → Bool) : BiMap α β :=
  ⟨m.pairs.filter keep, m.left_nodup.sublist ((List.filter_sublist _).map _),
    m.right_nodup.sublist ((List.filter_sublist _).map _)⟩

@[simp] theorem mem_filter {m : BiMap α β} {keep : α × β → Bool} {pair : α × β} :
    pair ∈ (m.filter keep).pairs ↔ pair ∈ m.pairs ∧ keep pair = true :=
  List.mem_filter

/-- A right value is paired with at most one left value. -/
theorem left_unique {m : BiMap α β} {a a' : α} {b : β} (first : (a, b) ∈ m.pairs)
    (second : (a', b) ∈ m.pairs) : a = a' :=
  congrArg Prod.fst (List.inj_on_of_nodup_map m.right_nodup first second rfl)

/-- A left value is paired with at most one right value. -/
theorem right_unique {m : BiMap α β} {a : α} {b b' : β} (first : (a, b) ∈ m.pairs)
    (second : (a, b') ∈ m.pairs) : b = b' :=
  congrArg Prod.snd (List.inj_on_of_nodup_map m.left_nodup first second rfl)

/-- `get_by_right`. -/
def getByRight [DecidableEq β] (m : BiMap α β) (b : β) : Option α :=
  (m.pairs.find? (fun pair => decide (pair.2 = b))).map Prod.fst

/-- `remove_by_right`: the removed pair, and the map without it. -/
def removeByRight [DecidableEq β] (m : BiMap α β) (b : β) : Option (α × β) × BiMap α β :=
  (m.pairs.find? (fun pair => decide (pair.2 = b)), m.filter (fun pair => decide (pair.2 ≠ b)))

/-- `remove_by_left`, its returned pair dropped. -/
def removeByLeft [DecidableEq α] (m : BiMap α β) (a : α) : BiMap α β :=
  m.filter (fun pair => decide (pair.1 ≠ a))

/-- `insert`: pairs sharing the left or the right value are overwritten. -/
def insert [DecidableEq α] [DecidableEq β] (m : BiMap α β) (a : α) (b : β) : BiMap α β :=
  let rest := m.filter (fun pair => decide (pair.1 ≠ a ∧ pair.2 ≠ b))
  ⟨(a, b) :: rest.pairs,
    List.nodup_cons.mpr ⟨by simp [rest, filter], rest.left_nodup⟩,
    List.nodup_cons.mpr ⟨by simp [rest, filter], rest.right_nodup⟩⟩

@[simp] theorem mem_insert [DecidableEq α] [DecidableEq β] {m : BiMap α β} {a : α} {b : β}
    {pair : α × β} :
    pair ∈ (m.insert a b).pairs ↔ pair = (a, b) ∨ (pair ∈ m.pairs ∧ pair.1 ≠ a ∧ pair.2 ≠ b) := by
  simp [insert, filter]

@[simp] theorem mem_removeByLeft [DecidableEq α] {m : BiMap α β} {a : α} {pair : α × β} :
    pair ∈ (m.removeByLeft a).pairs ↔ pair ∈ m.pairs ∧ pair.1 ≠ a := by
  simp [removeByLeft]

@[simp] theorem mem_removeByRight [DecidableEq β] {m : BiMap α β} {b : β} {pair : α × β} :
    pair ∈ (m.removeByRight b).2.pairs ↔ pair ∈ m.pairs ∧ pair.2 ≠ b := by
  simp [removeByRight]

theorem find?_right_eq_some [DecidableEq β] {m : BiMap α β} {b : β} {pair : α × β} :
    m.pairs.find? (fun pair => decide (pair.2 = b)) = some pair ↔ pair ∈ m.pairs ∧ pair.2 = b := by
  constructor
  · intro found
    have matching := List.find?_some found
    exact ⟨List.mem_of_find?_eq_some found, by simpa using matching⟩
  · rintro ⟨member, right⟩
    obtain ⟨found, equal⟩ := Option.isSome_iff_exists.mp
      ((List.find?_isSome (p := fun pair : α × β => decide (pair.2 = b))).mpr
        ⟨pair, member, by simpa using right⟩)
    have matching := List.find?_some equal
    have foundRight : found.2 = b := by simpa using matching
    have foundMember : (found.1, b) ∈ m.pairs := by
      rw [← foundRight]; exact List.mem_of_find?_eq_some equal
    have pairMember : (pair.1, b) ∈ m.pairs := by
      rw [← right]; exact member
    have sameLeft : found.1 = pair.1 := left_unique foundMember pairMember
    rw [equal, Prod.ext sameLeft (foundRight.trans right.symm)]

theorem getByRight_eq_some [DecidableEq β] {m : BiMap α β} {a : α} {b : β} :
    m.getByRight b = some a ↔ (a, b) ∈ m.pairs := by
  simp only [getByRight, Option.map_eq_some', find?_right_eq_some]
  constructor
  · rintro ⟨pair, ⟨member, rfl⟩, rfl⟩
    exact member
  · intro member
    exact ⟨(a, b), ⟨member, rfl⟩, rfl⟩

theorem removeByRight_fst_eq_some [DecidableEq β] {m : BiMap α β} {b : β} {pair : α × β} :
    (m.removeByRight b).1 = some pair ↔ pair ∈ m.pairs ∧ pair.2 = b :=
  find?_right_eq_some

end BiMap

/-! ## itertools' `chunks` -/

/-- Fill the group `current`, which has room for `room` more items, then start new groups of
`size` items. -/
def chunksFrom {α : Type} (size : Nat) (current : List α) (room : Nat) : List α → List (List α)
  | [] => [current]
  | item :: items =>
    match room with
    | 0 => current :: chunksFrom size [item] (size - 1) items
    | room + 1 => chunksFrom size (current ++ [item]) room items

/-- itertools' `chunks(size)`: consecutive groups of `size` items, the last one possibly
shorter, and no group for an empty input. -/
def chunks {α : Type} (size : Nat) : List α → List (List α)
  | [] => []
  | item :: items => chunksFrom size [item] (size - 1) items

theorem flatten_chunksFrom {α : Type} (size : Nat) :
    ∀ (current : List α) (room : Nat) (items : List α),
      (chunksFrom size current room items).flatten = current ++ items
  | current, _, [] => by simp [chunksFrom]
  | current, 0, item :: items => by
    simp [chunksFrom, flatten_chunksFrom size [item] (size - 1) items]
  | current, room + 1, item :: items => by
    simp [chunksFrom, flatten_chunksFrom size (current ++ [item]) room items]

/-- A group being filled takes up to `room` more items; what is left is chunked afresh. -/
theorem chunksFrom_eq {α : Type} (size : Nat) :
    ∀ (current : List α) (room : Nat) (items : List α),
      chunksFrom size current room items = (current ++ items.take room) :: chunks size (items.drop room)
  | current, _, [] => by simp [chunksFrom, chunks]
  | current, 0, item :: items => by simp only [chunksFrom, chunks, List.take_zero, List.drop_zero, List.append_nil]
  | current, room + 1, item :: items => by
    simp [chunksFrom, chunksFrom_eq size (current ++ [item]) room items]

/-- With groups of at least one item, a non-empty input's first chunk is its first `size` items,
and the rest is chunked alike. -/
theorem chunks_eq_take_drop {α : Type} {size : Nat} (positive : 0 < size) :
    ∀ {items : List α}, items ≠ [] → chunks size items = items.take size :: chunks size (items.drop size)
  | item :: items, _ => by
    obtain ⟨room, rfl⟩ : ∃ room, size = room + 1 := ⟨size - 1, by omega⟩
    rw [chunks, chunksFrom_eq, Nat.add_sub_cancel, List.take_succ_cons, List.drop_succ_cons, List.singleton_append]

/-- Chunking keeps every item, in order. -/
@[simp] theorem flatten_chunks {α : Type} (size : Nat) (items : List α) :
    (chunks size items).flatten = items := by
  cases items with
  | nil => rfl
  | cons item items => simpa [chunks] using flatten_chunksFrom size [item] (size - 1) items

end TelemetryCore
