import KafkaProxy.Library.CompareExchange
import KafkaProxy.Remap.Basic

/-!
# The loop of `alloc_cid_u`

Relays of all brokers allocate from one counter. What `allocCidU` does in one step is what the loop
does with its load and its compare-and-exchange, whatever the other relays do between the two.
-/

namespace KafkaProxy.CidRemap
open Library

def allocCidULoop : System (Cell Int32) CellAction := Cell.system cidAfter 1

def allocations (τ : Type) (maxInFlight : Nat) :
    System (CidRemap τ × List (Nat × Int32)) Nat where
  initial s := s = (.withMaxInFlight maxInFlight, [])
  step s i := some (s.1.allocCidU.2, s.2 ++ [(i, s.1.allocCidU.1)])

variable {τ : Type} {maxInFlight : Nat} {c : Cell Int32}

theorem iterate_cidAfter (n : Nat) : cidAfter^[n] 1 = cidAt n := by
  induction n with
  | zero => rfl
  | succ n ih => rw [Function.iterate_succ_apply', ih, cidAfter_cidAt]

theorem allocations_of_atomic {s : Int32 × List (Nat × Int32)}
    (reachable : (Cell.atomic cidAfter 1).Reachable s) :
    ∃ r : CidRemap τ, (allocations τ maxInFlight).Reachable (r, s.2) ∧ r.nextCid = s.1 := by
  induction reachable with
  | initial start =>
      subst start
      exact ⟨.withMaxInFlight maxInFlight, .initial rfl, rfl⟩
  | @next s t i _ _ taken ih =>
      obtain ⟨r, before, counter⟩ := ih
      obtain rfl : (cidAfter s.1, s.2 ++ [(i, cidAfter s.1)]) = t := Option.some.inj taken
      refine ⟨r.allocCidU.2, before.next (a := i) ?_, ?_⟩
      · simp [allocations, allocCidU, counter]
      · simp [allocCidU, counter]

theorem returned_eq (reachable : allocCidULoop.Reachable c) {n : Nat} {entry : Nat × Int32}
    (allocated : c.returned[n]? = some entry) : entry.2 = cidAt (n + 1) := by
  obtain ⟨inside, same⟩ := List.getElem?_eq_some_iff.mp allocated
  have values := congrArg (·[n]?) (Cell.returned_of_reachable reachable).2
  simp only [List.getElem?_map, allocated, List.getElem?_range inside, Option.map_some,
    Option.some.injEq] at values
  rw [values, iterate_cidAfter]

/-- What the concurrent calls return is what the calls return one at a time, in the order of their
exchanges. The ids are positive, the same one comes back after a full period only, and a call repeats
its loop only when another call returns in the meantime. -/
theorem allocCidU_linearizable (reachable : allocCidULoop.Reachable c) :
    (∃ r : CidRemap τ, (allocations τ maxInFlight).Reachable (r, c.returned) ∧ r.nextCid = c.value) ∧
    (∀ entry ∈ c.returned, 0 < entry.2) ∧
    (∀ m n : Nat, ∀ a b, c.returned[m]? = some a → c.returned[n]? = some b →
      (a.2 = b.2 ↔ m % cidPeriod = n % cidPeriod)) ∧
    ∀ i, c.failed i ≤ c.returned.countP (·.1 ≠ i) := by
  refine ⟨allocations_of_atomic (Cell.atomic_of_reachable reachable), ?_, ?_,
    Cell.failed_le_others reachable⟩
  · intro entry member
    obtain ⟨n, allocated⟩ := List.mem_iff_getElem?.mp member
    rw [returned_eq reachable allocated, Int32.lt_iff_toInt_lt, cidAt_toInt]
    show (0 : Int) < _
    omega
  · intro m n a b first second
    rw [returned_eq reachable first, returned_eq reachable second, cidAt_eq_iff]
    constructor
    · intro same
      exact Nat.ModEq.add_right_cancel' 1 same
    · intro same
      exact Nat.ModEq.add_right 1 same

def race : List CellAction :=
  [.call 0, .call 1, .load 0, .load 1, .compareExchange 0, .compareExchange 1, .load 1,
    .compareExchange 1]

theorem allocCidU_linearizable_race : ∃ c : Cell Int32,
    c.returned = [(0, 2), (1, 3)] ∧ c.failed 1 = 1 ∧
    (∃ r : CidRemap Unit, (allocations Unit 8).Reachable (r, c.returned) ∧ r.nextCid = c.value) ∧
    c.failed 1 ≤ c.returned.countP (·.1 ≠ 1) := by
  obtain ⟨c, reach, same, retried⟩ := allocCidULoop.exists_reach (fun _ _ => True) (Cell.new 1) race
    (fun c => c.returned = [(0, 2), (1, 3)] ∧ c.failed 1 = 1) rfl (by decide)
  have linearizable := @allocCidU_linearizable Unit 8 c reach
  exact ⟨c, same, retried, linearizable.1, linearizable.2.2.2 1⟩

end KafkaProxy.CidRemap
