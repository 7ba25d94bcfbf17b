import KafkaProxy.Library.Table
import KafkaProxy.Metrics
import KafkaProxy.Wire

namespace KafkaProxy
open Library

abbrev ConnId := UInt64

/-- Subtraction of `usize` values. It wraps, as it does in a release build. -/
def usizeSub (a b : Nat) : Nat := if b ≤ a then a - b else a + 2 ^ 64 - b

/-- An entry of the remap table. `τ` is the type of the handles to the clients' response queues. -/
structure RouteEntry (τ : Type) where
  downstreamTx : τ
  cidD : Int32
  apiKey : Int16
  apiVersion : Int16
  connId : ConnId
  deriving DecidableEq, Repr

/-- One remap table serves all brokers. Its keys are the correlation ids used upstream. -/
structure CidRemap (τ : Type) where
  map : Table Int32 (RouteEntry τ)
  nextCid : Int32
  nextConnId : ConnId
  maxInFlight : Nat

namespace CidRemap

variable {τ : Type}

def withMaxInFlight (maxInFlight : Nat) : CidRemap τ := ⟨∅, 1, 1, maxInFlight⟩

/-- What the compare-and-swap loop of `alloc_cid_u` puts in the place of the counter's value. -/
def cidAfter (prev : Int32) : Int32 :=
  if prev ≤ 0 ∨ prev = Int32.maxValue then 1 else prev + 1

-- A failed compare-and-swap only tries again, so an allocation is one atomic step.
def allocCidU (r : CidRemap τ) : Int32 × CidRemap τ :=
  (cidAfter r.nextCid, { r with nextCid := cidAfter r.nextCid })

def allocConnId (r : CidRemap τ) : ConnId × CidRemap τ :=
  (r.nextConnId, { r with nextConnId := r.nextConnId + 1 })

def inFlight (r : CidRemap τ) : Nat := r.map.size

def full (r : CidRemap τ) : Bool := r.maxInFlight ≤ r.map.size

/-- The last step of `insert`: the map replaces whatever is there under the key. -/
def store (r : CidRemap τ) (cidU : Int32) (entry : RouteEntry τ) : CidRemap τ :=
  { r with map := r.map.insert cidU entry }

def insert (r : CidRemap τ) (entry : RouteEntry τ) (metrics : Metrics) :
    Option Int32 × CidRemap τ × Metrics :=
  if r.full then (none, r, metrics)
  else
    let (cidU, r) := r.allocCidU
    (some cidU, r.store cidU entry, metrics.incCidMapEntries)

def take (r : CidRemap τ) (cidU : Int32) (metrics : Metrics) :
    Option (RouteEntry τ) × CidRemap τ × Metrics :=
  match r.map.lookup cidU with
  | some entry => (some entry, { r with map := r.map.erase cidU }, metrics.decCidMapEntries)
  | none => (none, r, metrics)

def retainOthers (r : CidRemap τ) (connId : ConnId) : CidRemap τ :=
  { r with map := r.map.retain fun _ entry => entry.connId ≠ connId }

def entriesOf (r : CidRemap τ) (connId : ConnId) : Nat :=
  r.map.count fun _ entry => entry.connId = connId

/-- `fail_conn` with nothing else going on. The `retain` of the code sweeps shard by shard; here the sweep
is one step, which stands at its start. -/
def failConn (r : CidRemap τ) (connId : ConnId) (metrics : Metrics) :
    Nat × CidRemap τ × Metrics :=
  let before := r.map.size
  let r := r.retainOthers connId
  let removed := usizeSub before r.map.size
  (removed, r, metrics.subCidMapEntries removed)

theorem size_retainOthers (r : CidRemap τ) (connId : ConnId) :
    (r.retainOthers connId).map.size + r.entriesOf connId = r.map.size := by
  simpa [retainOthers, entriesOf] using
    Table.size_retain (fun _ entry => decide (entry.connId ≠ connId)) r.map

theorem lookup_retainOthers {r : CidRemap τ} {connId : ConnId} {cid : Int32}
    {entry : RouteEntry τ} :
    (r.retainOthers connId).map.lookup cid = some entry ↔
      r.map.lookup cid = some entry ∧ entry.connId ≠ connId := by
  rw [retainOthers, Table.lookup_retain_eq_some, decide_eq_true_iff]

/-! ## The counter -/

def cidPeriod : Nat := 2 ^ 31 - 1

/-- The value of the counter after `n` allocations: 1, 2, ..., `i32::MAX`, 1, ... -/
def cidAt (n : Nat) : Int32 := Int32.ofNat (1 + n % cidPeriod)

theorem cidAt_toInt (n : Nat) : (cidAt n).toInt = 1 + n % cidPeriod := by
  have bound : n % cidPeriod < cidPeriod := Nat.mod_lt _ (by decide)
  rw [cidAt, Int32.toInt_ofNat_of_lt (by unfold cidPeriod at *; omega)]
  omega

theorem cidAt_eq_iff (m n : Nat) : cidAt m = cidAt n ↔ m % cidPeriod = n % cidPeriod := by
  rw [← Int32.toInt_inj, cidAt_toInt, cidAt_toInt]
  omega

theorem cidAfter_cidAt (n : Nat) : cidAfter (cidAt n) = cidAt (n + 1) := by
  have bound : n % cidPeriod < cidPeriod := Nat.mod_lt _ (by decide)
  have value := cidAt_toInt n
  have max : Int32.maxValue.toInt = 2 ^ 31 - 1 := by decide
  have positive : ¬ cidAt n ≤ 0 := by
    rw [Int32.le_iff_toInt_le, value]
    simp
    omega
  by_cases last : n % cidPeriod + 1 = cidPeriod
  · have wraps : cidAt n = Int32.maxValue := by
      rw [← Int32.toInt_inj, value, max]
      unfold cidPeriod at *
      omega
    have again : (n + 1) % cidPeriod = 0 := by
      rw [← Nat.mod_add_mod, last, Nat.mod_self]
    rw [cidAfter, if_pos (Or.inr wraps), cidAt, again]
    rfl
  · have below : cidAt n ≠ Int32.maxValue := by
      rw [ne_eq, ← Int32.toInt_inj, value, max]
      unfold cidPeriod at *
      omega
    have next : (n + 1) % cidPeriod = n % cidPeriod + 1 := by
      rw [← Nat.mod_add_mod, Nat.mod_eq_of_lt (by omega)]
    rw [cidAfter, if_neg (by simp [positive, below]), cidAt, cidAt, next, ← Nat.add_assoc,
      Int32.ofNat_add (1 + n % cidPeriod)]
    rfl

theorem cidAt_inj {m n bound : Nat} (below : bound < cidPeriod) (hm : m ≤ bound) (hn : n ≤ bound)
    (same : cidAt m = cidAt n) : m = n := by
  rw [cidAt_eq_iff, Nat.mod_eq_of_lt (by omega), Nat.mod_eq_of_lt (by omega)] at same
  exact same

end CidRemap
end KafkaProxy
