import TelemetryCore.Types

namespace TelemetryCore

/-!
# Connection ids

`Aggregator::spawn` starts two counters at `1`, one for shard connections and one for feed
connections.  `subscribe_shard` and `subscribe_feed` take their connection's id with
`fetch_add(1)` on their own counter and tag every message the connection sends with it.  Tasks
subscribe concurrently, but each `fetch_add` is one atomic read-modify-write of its counter, so
any interleaving of subscriptions acts as a sequence of such steps, each handing out the value
it read.  The counters are `AtomicU64`s, which wrap at `2 ^ 64`.

Here the ids a sequence of subscriptions is handed are computed kind by kind: the `k`-th
subscription of a kind gets `k + 1` modulo `2 ^ 64`.  So the first `2 ^ 64` connections of a
kind get pairwise distinct ids.  The two kinds are counted apart, so a shard and a feed may share
an id; their messages reach the aggregator under different constructors.
-/

/-- The counters of `AggregatorInternal`.  The channel into the aggregator loop is left out: the
functions modelled here only clone it. -/
structure Aggregator where
  shardConnId : UInt64
  feedConnId : UInt64
deriving DecidableEq, Repr

/-- Which of the two subscriptions a task makes. -/
inductive Subscription where
  | shard
  | feed
deriving DecidableEq, Repr

namespace Aggregator

/-- The counters `Aggregator::spawn` builds. -/
def spawn : Aggregator := ⟨1, 1⟩

/-- `AtomicU64::fetch_add(1)`: the value read, and the value left, wrapping at `2 ^ 64`. -/
def fetchAdd (counter : UInt64) : UInt64 × UInt64 := (counter, counter + 1)

/-- `subscribe_shard`: the counters after it, and the id its connection's messages carry. -/
def subscribeShard (aggregator : Aggregator) : Aggregator × ConnId :=
  let (shardConnId, next) := fetchAdd aggregator.shardConnId
  ({ aggregator with shardConnId := next }, shardConnId.toNat)

/-- `subscribe_feed`: the counters after it, and the id it returns and its connection's messages
carry. -/
def subscribeFeed (aggregator : Aggregator) : Aggregator × UInt64 :=
  let (feedConnId, next) := fetchAdd aggregator.feedConnId
  ({ aggregator with feedConnId := next }, feedConnId)

/-- One subscription, as the atomic step it is: the counters after it, and the id handed out. -/
def subscribe (aggregator : Aggregator) : Subscription → Aggregator × Nat
  | .shard => aggregator.subscribeShard
  | .feed => ((aggregator.subscribeFeed).1, (aggregator.subscribeFeed).2.toNat)

/-- Subscriptions in the order their `fetch_add`s take effect: the counters after them, and each
subscription with the id it was handed. -/
def subscribeAll : Aggregator → List Subscription → Aggregator × List (Subscription × Nat)
  | aggregator, [] => (aggregator, [])
  | aggregator, kind :: rest =>
    let (next, id) := aggregator.subscribe kind
    let (final, given) := next.subscribeAll rest
    (final, (kind, id) :: given)

/-- The ids handed to subscriptions of one kind, in order. -/
def idsOf (kind : Subscription) (given : List (Subscription × Nat)) : List Nat :=
  given.filterMap fun entry => if entry.1 = kind then some entry.2 else none

/-- The counter a kind of subscription reads. -/
def counter (aggregator : Aggregator) : Subscription → UInt64
  | .shard => aggregator.shardConnId
  | .feed => aggregator.feedConnId

/-! ## One subscription -/

/-- A subscription hands out the value its counter held. -/
@[simp] theorem subscribe_id (aggregator : Aggregator) (kind : Subscription) :
    (aggregator.subscribe kind).2 = (aggregator.counter kind).toNat := by
  cases kind <;> rfl

/-- A subscription moves its own counter on by one, wrapping. -/
@[simp] theorem counter_subscribe_self (aggregator : Aggregator) (kind : Subscription) :
    (aggregator.subscribe kind).1.counter kind = aggregator.counter kind + 1 := by
  cases kind <;> rfl

/-- A subscription leaves the other kind's counter alone. -/
theorem counter_subscribe_other (aggregator : Aggregator) {kind other : Subscription} (different : other ≠ kind) :
    (aggregator.subscribe kind).1.counter other = aggregator.counter other := by
  cases kind <;> cases other <;> first | rfl | exact absurd rfl different

/-! ## Runs of subscriptions -/

/-- The ids a run of subscriptions hands to one kind count on from that kind's counter, one per
subscription, modulo `2 ^ 64`. -/
theorem idsOf_subscribeAll (kind : Subscription) :
    ∀ (subscriptions : List Subscription) (aggregator : Aggregator),
      idsOf kind (aggregator.subscribeAll subscriptions).2 =
        (List.range (subscriptions.count kind)).map fun i => ((aggregator.counter kind).toNat + i) % UInt64.size
  | [], _ => rfl
  | first :: rest, aggregator => by
    have later := idsOf_subscribeAll kind rest (aggregator.subscribe first).1
    simp only [subscribeAll, idsOf, List.filterMap_cons] at later ⊢
    by_cases same : first = kind
    · subst same
      have below : (aggregator.counter first).toNat < UInt64.size := (aggregator.counter first).val.isLt
      have wraps : (aggregator.counter first + 1).toNat = ((aggregator.counter first).toNat + 1) % UInt64.size := rfl
      rw [if_pos rfl, later, List.count_cons_self, List.range_succ_eq_map, List.map_cons, List.map_map,
        subscribe_id, counter_subscribe_self, wraps]
      dsimp only
      congr 1
      · exact (Nat.mod_eq_of_lt below).symm
      · refine List.map_congr_left fun i _ => ?_
        simp only [Function.comp_apply, UInt64.size]
        omega
    · rw [if_neg same, later, counter_subscribe_other _ (Ne.symm same), List.count_cons_of_ne (Ne.symm same)]

/-- From `Aggregator::spawn`, the `k`-th subscription of a kind is handed `k + 1`, modulo
`2 ^ 64`. -/
theorem idsOf_spawn (subscriptions : List Subscription) (kind : Subscription) :
    idsOf kind (spawn.subscribeAll subscriptions).2 =
      (List.range (subscriptions.count kind)).map fun i => (i + 1) % UInt64.size := by
  rw [idsOf_subscribeAll]
  cases kind <;> simp [spawn, counter, Nat.add_comm]

end Aggregator

/-- From `Aggregator::spawn`, whatever the interleaving of `subscribe_shard` and
`subscribe_feed` calls, as long as at most `2 ^ 64` connections of a kind subscribe, the
connections of that kind are handed pairwise distinct ids. -/
theorem connection_ids_distinct (subscriptions : List Subscription) (kind : Subscription)
    (few : subscriptions.count kind ≤ UInt64.size) :
    (Aggregator.idsOf kind (Aggregator.spawn.subscribeAll subscriptions).2).Nodup := by
  rw [Aggregator.idsOf_spawn]
  refine (List.nodup_range _).map_on fun i inRange j inRange' same => ?_
  rw [List.mem_range] at inRange inRange'
  simp only [UInt64.size] at few same
  omega

theorem connection_ids_distinct_interleaved :
    [Subscription.shard, .feed, .shard, .shard, .feed].count .shard ≤ UInt64.size ∧
      (Aggregator.idsOf .shard (Aggregator.spawn.subscribeAll [.shard, .feed, .shard, .shard, .feed]).2).Nodup :=
  ⟨by decide, connection_ids_distinct _ _ (by decide)⟩

end TelemetryCore
