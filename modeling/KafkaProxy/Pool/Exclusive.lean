import KafkaProxy.Library.Couple
import KafkaProxy.Pool.Places

/-!
# No connection in two places

A connection id is in the queue, with one task, or in the hands of the warmup. The pools of all brokers
draw their ids from one counter.
-/

namespace KafkaProxy
open Library

namespace CidRemap

variable {τ : Type}

/-- `allocated` is history: how many connection ids have been given out. -/
structure ConnIds (τ : Type) where
  remap : CidRemap τ
  allocated : Nat

def connIds (τ : Type) (maxInFlight : Nat) : System (ConnIds τ) Unit where
  initial s := s = ⟨withMaxInFlight maxInFlight, 0⟩
  step s _ := some ⟨s.remap.allocConnId.2, s.allocated + 1⟩

def connIdAt (n : Nat) : ConnId := UInt64.ofNat (n + 1)

theorem nextConnId_of_reach {maxInFlight : Nat} {allowed : ConnIds τ → Unit → Prop} {s : ConnIds τ}
    (reach : (connIds τ maxInFlight).Reach allowed s) : s.remap.nextConnId = connIdAt s.allocated := by
  induction reach with
  | initial first =>
      rw [first]
      rfl
  | next _ _ taken ih =>
      cases taken
      simp only [allocConnId, ih, connIdAt, UInt64.ofNat_add]
      rfl

theorem connIdAt_ne {m n : Nat} (below : m < n) (few : n < 2 ^ 64) : connIdAt m ≠ connIdAt n := by
  intro same
  have value := congrArg UInt64.toNat same
  simp only [connIdAt, UInt64.toNat_ofNat'] at value
  omega

end CidRemap

def Task.lease : Task → Option ConnId
  | .leased conn => some conn.connId
  | _ => none

inductive IdentifiedAction where
  | pool (action : PoolAction)
  | otherPool
  deriving DecidableEq, Repr

namespace BrokerPool
open CidRemap

variable {τ : Type}

/-- A connection that the pool opens gets the next id of the counter. -/
def identify (s : BrokerPool × ConnIds τ) : IdentifiedAction → Option (Option PoolAction × Option Unit)
  | .pool action =>
      match opens action with
      | some conn => if conn.connId = s.2.remap.allocConnId.1 then some (some action, some ()) else none
      | none => some (some action, none)
  | .otherPool => some (none, some ())

def identified (τ : Type) (config : PoolLimits) (metrics : Metrics) (maxInFlight : Nat) :
    System (BrokerPool × ConnIds τ) IdentifiedAction :=
  System.couple (system config metrics) (connIds τ maxInFlight) identify

def leases (p : BrokerPool) : List ConnId := p.tasks.filterMap Task.lease

variable {p q : BrokerPool} {action : PoolAction} {i : Nat} {task next : Task} {id : ConnId}

/-! ## The places of an id -/

def names (id : ConnId) : Option Acquired → Nat
  | some conn => if conn.connId = id then 1 else 0
  | none => 0

@[simp] theorem names_none : names id none = 0 := rfl
@[simp] theorem names_some (conn : Acquired) :
    names id (some conn) = if conn.connId = id then 1 else 0 := rfl

def copies (p : BrokerPool) (id : ConnId) : Nat :=
  p.idle.countP (·.connId = id) + total (fun task => names id task.conn) p.tasks +
    names id p.warmup.ready

theorem names_eq_weight (conn : Option Acquired) :
    names id conn = weight (fun conn => (decide (conn.connId = id)).toNat) conn := by
  cases conn with
  | none => rfl
  | some conn =>
      rw [names_some, weight_some]
      by_cases same : conn.connId = id <;> simp [same]

theorem copies_eq_places (p : BrokerPool) (id : ConnId) :
    p.copies id = p.places fun conn => (decide (conn.connId = id)).toNat := by
  simp only [copies, places, names_eq_weight,
    total_toNat (fun conn : PooledConn => decide (conn.connId = id))]

theorem Change.copies_le (id : ConnId) (waits : Waits p.notify.waiters p.tasks)
    (change : Change p action q) : q.copies id ≤ p.copies id + names id (opens action) := by
  rw [copies_eq_places, copies_eq_places, names_eq_weight]
  exact change.places_le _ waits

/-! ## The length of the queue -/

structure Roomy (config : PoolLimits) (p : BrokerPool) : Prop where
  room : p.idle.length + p.unwarmed ≤ config.maxPerBroker
  warm : p.tasks ≠ [] → p.unwarmed = 0

theorem warmedUp_iff : p.warmedUp = true ↔ p.unwarmed = 0 := by
  simp only [warmedUp, BrokerPool.unwarmed]
  cases p.warmup.ready <;> simp

theorem Move.roomy {config : PoolLimits} {taskAction : TaskAction} (roomy : p.Roomy config)
    (limit : p.config = config) (current : p.tasks[i]? = some task)
    (move : Move p i task taskAction q next) : (q.put i next).Roomy config := by
  have warm := roomy.warm (by rintro empty; simp [empty] at current)
  have room := roomy.room
  suffices kept : q.idle.length ≤ config.maxPerBroker ∧ q.warmup = p.warmup by
    have same : (q.put i next).unwarmed = 0 := by
      rw [← warm]
      exact congrArg (fun w => w.remaining + w.ready.toList.length) kept.2
    refine ⟨?_, fun _ => same⟩
    rw [same]
    exact kept.1
  cases move with
  | reuse unlocked queue live | bury unlocked queue dead =>
      rw [queue, List.length_cons] at room
      exact ⟨Nat.le_of_succ_le ((Nat.le_add_right _ _).trans room), rfl⟩
  | push unlocked room =>
      rw [List.length_append, List.length_singleton]
      exact ⟨limit ▸ room, rfl⟩
  | notify => exact ⟨notifyOne_idle (p := p) ▸ (Nat.le_add_right _ _).trans room, notifyOne_warmup⟩
  | _ => exact ⟨(Nat.le_add_right _ _).trans room, rfl⟩

theorem Change.roomy {config : PoolLimits} (roomy : p.Roomy config) (limit : p.config = config)
    (change : Change p action q) : q.Roomy config := by
  obtain ⟨room, warm⟩ := roomy
  cases change with
  | task current move => exact move.roomy ⟨room, warm⟩ limit current
  | @warm conn remaining left fresh =>
      have empty : p.tasks = [] := by
        by_contra some
        have done := warm some
        simp [BrokerPool.unwarmed, left] at done
      refine ⟨?_, fun some => absurd empty some⟩
      simpa [BrokerPool.unwarmed, spawn, left] using room
  | warmFail left =>
      refine ⟨?_, fun _ => rfl⟩
      exact (Nat.le_add_right _ _).trans room
  | @warmPush conn remaining ready =>
      simp only [BrokerPool.unwarmed, ready, Option.toList_some, List.length_singleton] at room warm
      refine ⟨?_, fun some => ?_⟩
      · simp only [BrokerPool.unwarmed, List.length_append, List.length_singleton, Option.toList_none,
          List.length_nil]
        omega
      · exact absurd (warm some) (Nat.succ_ne_zero _)
  | accept done => exact ⟨room, fun _ => warmedUp_iff.mp done⟩
  | reap done resting due =>
      refine ⟨?_, warm⟩
      exact (Nat.add_le_add_right (List.length_filter_le _ _) _).trans room
  | reapNotify subtracted =>
      refine ⟨by simpa [BrokerPool.unwarmed] using room, fun some => ?_⟩
      have before : p.tasks ≠ [] := by
        rintro empty
        apply some
        unfold notifyOne
        split <;> simp [empty]
      simpa [BrokerPool.unwarmed] using warm before
  | tick elapsed | subtract evicted | ended runs => exact ⟨room, warm⟩

/-! ## Every id in one place -/

structure Exclusive (s : BrokerPool × ConnIds τ) : Prop where
  single : ∀ id, s.1.copies id ≤ 1
  known : ∀ id, 0 < s.1.copies id → ∃ n < s.2.allocated, id = connIdAt n

variable {config : PoolLimits} {metrics : Metrics} {maxInFlight : Nat} {s t : BrokerPool × ConnIds τ}
  {joint : IdentifiedAction}

theorem Exclusive.opened {conn : Acquired} (exclusive : Exclusive s)
    (counter : s.2.remap.nextConnId = connIdAt s.2.allocated)
    (few : s.2.allocated < 2 ^ 64) (fresh : conn.connId = s.2.remap.nextConnId)
    (within : ∀ id, q.copies id ≤ s.1.copies id + names id (some conn)) {remap : CidRemap τ} :
    Exclusive (q, (⟨remap, s.2.allocated + 1⟩ : ConnIds τ)) := by
  have new (id : ConnId) (positive : 0 < s.1.copies id) : conn.connId ≠ id := by
    rintro rfl
    obtain ⟨n, below, same⟩ := exclusive.known _ positive
    rw [fresh, counter] at same
    exact connIdAt_ne below few same.symm
  refine ⟨fun id => ?_, fun id positive => ?_⟩
  · have bound := within id
    have single := exclusive.single id
    rw [names_some] at bound
    by_cases here : conn.connId = id
    · have unused : s.1.copies id = 0 := by
        by_contra used
        exact new id (Nat.pos_of_ne_zero used) here
      rw [if_pos here, unused] at bound
      exact bound
    · rw [if_neg here] at bound
      exact bound.trans single
  · have bound := within id
    by_cases here : conn.connId = id
    · refine ⟨s.2.allocated, Nat.lt_succ_self _, ?_⟩
      rw [← here, fresh, counter]
    · rw [names_some, if_neg here] at bound
      obtain ⟨n, below, same⟩ := exclusive.known id (positive.trans_le bound)
      exact ⟨n, Nat.lt_succ_of_lt below, same⟩

theorem Exclusive.step (exclusive : Exclusive s)
    (counter : s.2.remap.nextConnId = connIdAt s.2.allocated)
    (waits : Waits s.1.notify.waiters s.1.tasks) (few : t.2.allocated < 2 ^ 64)
    (taken : (identified τ config metrics maxInFlight).step s joint = some t) : Exclusive t := by
  obtain ⟨pool, ids⟩ := s
  obtain ⟨after, idsAfter⟩ := t
  obtain ⟨⟨a, b⟩, possible, left, right⟩ := System.couple_step taken
  cases joint with
  | otherPool =>
      cases possible
      cases left
      cases right
      refine ⟨exclusive.single, fun id positive => ?_⟩
      obtain ⟨n, below, same⟩ := exclusive.known id positive
      exact ⟨n, Nat.lt_succ_of_lt below, same⟩
  | pool action =>
      simp only [identify] at possible
      split at possible
      · rename_i conn opened
        split at possible <;> cases possible
        rename_i fresh
        cases right
        have within (id : ConnId) := (Change.of_step left).copies_le id waits
        rw [opened] at within
        exact exclusive.opened counter (Nat.lt_of_succ_lt few) fresh within
      · rename_i none
        cases possible
        cases right
        have within (id : ConnId) := (Change.of_step left).copies_le id waits
        rw [none] at within
        refine ⟨fun id => (within id).trans (exclusive.single id), fun id positive => ?_⟩
        exact exclusive.known id (positive.trans_le (within id))

theorem allocated_le (taken : (identified τ config metrics maxInFlight).step s joint = some t) :
    s.2.allocated ≤ t.2.allocated := by
  obtain ⟨⟨a, b⟩, _, _, right⟩ := System.couple_step taken
  cases b with
  | none => rw [← Option.some.inj right]
  | some drawn =>
      rw [← Option.some.inj right]
      exact Nat.le_succ _

theorem pool_reachable (reachable : (identified τ config metrics maxInFlight).Reachable s) :
    (system config metrics).Reachable s.1 :=
  System.Reach.left (fun _ _ _ _ _ _ => trivial) reachable

theorem connIds_reachable (reachable : (identified τ config metrics maxInFlight).Reachable s) :
    (connIds τ maxInFlight).Reachable s.2 :=
  System.Reach.right (fun _ _ _ _ _ _ => trivial) reachable

theorem exclusive_of_reach (reachable : (identified τ config metrics maxInFlight).Reachable s)
    (few : s.2.allocated < 2 ^ 64) : Exclusive s := by
  induction reachable with
  | initial first =>
      have started : _ = BrokerPool.new config metrics := first.1
      constructor <;> simp [started, copies, new]
  | @next before after action reached _ taken ih =>
      have fewer := (allocated_le taken).trans_lt few
      exact (ih fewer).step (nextConnId_of_reach (connIds_reachable reached))
        (waits_of_reach (pool_reachable reached)) few taken

theorem roomy_of_reach (fits : config.minIdle ≤ config.maxPerBroker)
    (reachable : (system config metrics).Reachable p) : p.Roomy config := by
  induction reachable with
  | initial first =>
      rw [first]
      exact ⟨by simpa [new, BrokerPool.unwarmed] using fits, by simp [new]⟩
  | next reached _ taken ih => exact (Change.of_step taken).roomy ih (config_of_reach reached)

theorem count_leases_le (p : BrokerPool) (id : ConnId) :
    p.leases.count id ≤ total (fun task => names id task.conn) p.tasks := by
  unfold leases
  induction p.tasks with
  | nil => exact le_rfl
  | cons task tasks ih =>
      cases task with
      | leased conn =>
          have first : (Task.leased conn).lease = some conn.connId := rfl
          rw [List.filterMap_cons_some first, List.count_cons, total_cons, Nat.add_comm]
          apply Nat.add_le_add _ ih
          simp [Task.conn]
      | _ =>
          simp only [List.filterMap_cons, Task.lease, total_cons]
          exact ih.trans (Nat.le_add_left _ _)

theorem Exclusive.nodup (exclusive : Exclusive s) : (s.1.idle.map (·.connId) ++ s.1.leases).Nodup := by
  rw [List.nodup_iff_count_le_one]
  intro id
  have queued : (s.1.idle.map (·.connId)).count id = s.1.idle.countP (·.connId = id) := by
    rw [List.count, List.countP_map]
    rfl
  have single := exclusive.single id
  have leased := count_leases_le s.1 id
  rw [List.count_append, queued]
  simp only [copies] at single
  omega

theorem leases_apart {conn other : Acquired} {j : Nat} (nodup : p.leases.Nodup)
    (here : p.tasks[i]? = some (.leased conn)) (there : p.tasks[j]? = some (.leased other))
    (same : conn.connId = other.connId) : i = j :=
  eq_of_nodup_filterMap nodup here there rfl (congrArg some same.symm)

/-- A connection id is at most once in the queue and in the leases together, and the queue holds at
most `max_per_broker` connections. -/
theorem connections_exclusive (fits : config.minIdle ≤ config.maxPerBroker)
    (reachable : (identified τ config metrics maxInFlight).Reachable s)
    (few : s.2.allocated < 2 ^ 64) :
    (s.1.idle.map (·.connId) ++ s.1.leases).Nodup ∧
      (∀ (i j : Nat) (conn other : Acquired), s.1.tasks[i]? = some (.leased conn) →
        s.1.tasks[j]? = some (.leased other) → conn.connId = other.connId → i = j) ∧
      s.1.idle.length ≤ config.maxPerBroker := by
  have nodup := (exclusive_of_reach reachable few).nodup
  refine ⟨nodup, fun i j conn other here there same => ?_, ?_⟩
  · exact leases_apart (List.nodup_append.mp nodup).2.1 here there same
  · exact (Nat.le_add_right _ _).trans (roomy_of_reach fits (pool_reachable reachable)).room

theorem connections_exclusive_two : ∃ s : BrokerPool × ConnIds Unit,
    s.1.idle.map (·.connId) = [1] ∧ s.1.leases = [3] ∧
      (s.1.idle.map (·.connId) ++ s.1.leases).Nodup ∧
      (∀ (i j : Nat) (conn other : Acquired), s.1.tasks[i]? = some (.leased conn) →
        s.1.tasks[j]? = some (.leased other) → conn.connId = other.connId → i = j) ∧
      s.1.idle.length ≤ 2 := by
  obtain ⟨s, reachable, queued, leased, few⟩ :=
    (identified Unit ⟨2, 1, 300000, 5000⟩ (.new true) 2).exists_reach (fun _ _ => True)
    (.new ⟨2, 1, 300000, 5000⟩ (.new true), ⟨withMaxInFlight 2, 0⟩)
    [.pool (.warm ⟨0, 1⟩), .pool .warmPush, .otherPool, .pool .accept, .pool .accept,
      .pool (.task 0 .acquire), .pool (.task 0 .tryIdle), .pool (.task 1 .acquire),
      .pool (.task 1 .tryIdle), .pool (.task 1 .tryCreate), .pool (.task 1 (.connect ⟨1, 3⟩)),
      .pool (.task 1 .hand), .pool (.task 0 .release), .pool (.task 0 .push)]
    (fun s => s.1.idle.map (·.connId) = [1] ∧ s.1.leases = [3] ∧ s.2.allocated = 3) ⟨rfl, rfl⟩
    (by decide)
  exact ⟨s, queued, leased, connections_exclusive (by decide) reachable (by rw [few]; decide)⟩

end BrokerPool
end KafkaProxy
