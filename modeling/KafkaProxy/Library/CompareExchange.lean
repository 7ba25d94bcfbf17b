import KafkaProxy.Library.System
import Mathlib.Data.List.Range
import Mathlib.Logic.Function.Iterate

/-!
# Compare-and-exchange loops

Any number of tasks update one cell. A task loads the value, computes the next one, and exchanges the
two if the cell still has what was loaded. A call takes effect, and returns, at the exchange that
succeeds.
-/

namespace KafkaProxy.Library

variable {ν : Type}

inductive Attempt (ν : Type) where
  | outside
  | loading
  | loaded (prev : ν)
  deriving DecidableEq, Repr

/-- `returned`, with the oldest call first, and `failed` are history. -/
structure Cell (ν : Type) where
  value : ν
  attempts : Nat → Attempt ν
  returned : List (Nat × ν)
  failed : Nat → Nat

inductive CellAction where
  | call (i : Nat)
  | load (i : Nat)
  | compareExchange (i : Nat)
  deriving DecidableEq, Repr

namespace Cell

def new (first : ν) : Cell ν := ⟨first, fun _ => .outside, [], fun _ => 0⟩

def setAttempt (c : Cell ν) (i : Nat) (attempt : Attempt ν) : Cell ν :=
  { c with attempts := Function.update c.attempts i attempt }

def exchange (c : Cell ν) (i : Nat) (next : ν) : Cell ν :=
  { c.setAttempt i .outside with value := next, returned := c.returned ++ [(i, next)] }

def retry (c : Cell ν) (i : Nat) : Cell ν :=
  { c.setAttempt i .loading with failed := Function.update c.failed i (c.failed i + 1) }

def others (c : Cell ν) (i : Nat) : Nat := c.returned.countP (·.1 ≠ i)

theorem others_exchange_self {c : Cell ν} (i : Nat) (next : ν) : (c.exchange i next).others i = c.others i := by
  simp [others, exchange, List.countP_append]

theorem others_exchange_ne {c : Cell ν} {i j : Nat} (other : i ≠ j) (next : ν) :
    (c.exchange i next).others j = c.others j + 1 := by
  simp [others, exchange, List.countP_append, other]

/-! ## Each call in one step -/

def atomic (update : ν → ν) (first : ν) : System (ν × List (Nat × ν)) Nat where
  initial s := s = (first, [])
  step s i := some (update s.1, s.2 ++ [(i, update s.1)])

theorem iterates_of_reachable {update : ν → ν} {first : ν} {s : ν × List (Nat × ν)}
    (reachable : (atomic update first).Reachable s) :
    s.1 = update^[s.2.length] first ∧
      s.2.map (·.2) = (List.range s.2.length).map fun n => update^[n + 1] first := by
  induction reachable with
  | initial start =>
      rw [start]
      exact ⟨rfl, rfl⟩
  | @next s t i _ _ taken ih =>
      obtain ⟨value, returned⟩ := ih
      obtain rfl : (update s.1, s.2 ++ [(i, update s.1)]) = t := Option.some.inj taken
      have next : update s.1 = update^[s.2.length + 1] first := by
        rw [Function.iterate_succ_apply', ← value]
      refine ⟨?_, ?_⟩
      · rw [List.length_append, List.length_singleton]
        exact next
      · rw [List.map_append, returned, List.length_append, List.length_singleton, List.range_succ,
          List.map_append, List.map_singleton, List.map_singleton, next]

/-! ## The loop -/

variable [DecidableEq ν]

def step (update : ν → ν) (c : Cell ν) : CellAction → Option (Cell ν)
  | .call i =>
      match c.attempts i with
      | .outside => some (c.setAttempt i .loading)
      | _ => none
  | .load i =>
      match c.attempts i with
      | .loading => some (c.setAttempt i (.loaded c.value))
      | _ => none
  | .compareExchange i =>
      match c.attempts i with
      | .loaded prev => some (if c.value = prev then c.exchange i (update prev) else c.retry i)
      | _ => none

def system (update : ν → ν) (first : ν) : System (Cell ν) CellAction where
  initial c := c = .new first
  step := step update

/-! ## What a step can do -/

inductive Change (update : ν → ν) (c : Cell ν) : CellAction → Cell ν → Prop where
  | call {i : Nat} (outside : c.attempts i = .outside) :
      Change update c (.call i) (c.setAttempt i .loading)
  | load {i : Nat} (loads : c.attempts i = .loading) :
      Change update c (.load i) (c.setAttempt i (.loaded c.value))
  | exchange {i : Nat} (loaded : c.attempts i = .loaded c.value) :
      Change update c (.compareExchange i) (c.exchange i (update c.value))
  | retry {i : Nat} {prev : ν} (loaded : c.attempts i = .loaded prev) (moved : c.value ≠ prev) :
      Change update c (.compareExchange i) (c.retry i)

variable {update : ν → ν} {first : ν} {c d : Cell ν} {action : CellAction}

theorem Change.of_step (taken : c.step update action = some d) : Change update c action d := by
  cases action with
  | call i =>
      simp only [step] at taken
      split at taken <;> cases taken
      rename_i outside
      exact .call outside
  | load i =>
      simp only [step] at taken
      split at taken <;> cases taken
      rename_i loads
      exact .load loads
  | compareExchange i =>
      simp only [step] at taken
      split at taken <;> cases taken
      rename_i prev loaded
      split
      · rename_i same
        subst same
        exact .exchange loaded
      · rename_i moved
        exact .retry loaded moved

/-! ## The order of the calls -/

theorem atomic_of_reachable (reachable : (system update first).Reachable c) :
    (atomic update first).Reachable (c.value, c.returned) := by
  induction reachable with
  | initial start =>
      apply System.Reach.initial
      rw [start]
      rfl
  | next _ _ taken ih =>
      cases Change.of_step taken with
      | call | load | retry => exact ih
      | @exchange i loaded => exact ih.next (a := i) rfl

theorem returned_of_reachable (reachable : (system update first).Reachable c) :
    c.value = update^[c.returned.length] first ∧
      c.returned.map (·.2) = (List.range c.returned.length).map fun n => update^[n + 1] first :=
  iterates_of_reachable (atomic_of_reachable reachable)

/-! ## What a retry costs -/

/-- `seen` is the number of calls of others that had returned when the task loaded last. -/
structure Paid (c : Cell ν) (i seen : Nat) : Prop where
  failed : c.failed i ≤ seen
  past : seen ≤ c.others i
  current : ∀ prev, c.attempts i = .loaded prev → seen = c.others i → c.value = prev

theorem Change.paid {i seen : Nat} (paid : c.Paid i seen) (change : Change update c action d) :
    ∃ seen, d.Paid i seen := by
  cases change with
  | @call j outside =>
      refine ⟨seen, paid.failed, paid.past, fun prev loaded => ?_⟩
      by_cases same : i = j
      · simp [setAttempt, same] at loaded
      · exact paid.current prev (by simpa [setAttempt, same] using loaded)
  | @load j loads =>
      by_cases same : i = j
      · refine ⟨c.others i, paid.failed.trans paid.past, Nat.le_refl _, fun prev loaded _ => ?_⟩
        simpa [setAttempt, same] using loaded
      · refine ⟨seen, paid.failed, paid.past, fun prev loaded => ?_⟩
        exact paid.current prev (by simpa [setAttempt, same] using loaded)
  | @exchange j loaded =>
      by_cases same : i = j
      · subst same
        refine ⟨seen, paid.failed, ?_, fun prev inside => ?_⟩
        · rw [others_exchange_self]
          exact paid.past
        · simp [Cell.exchange, setAttempt] at inside
      · have more := others_exchange_ne (c := c) (Ne.symm same) (update c.value)
        have old := paid.past
        exact ⟨seen, paid.failed, by omega, fun prev _ now => by omega⟩
  | @retry j prev loaded moved =>
      by_cases same : i = j
      · subst same
        -- The value has moved since the load, so another call has returned.
        have missed : seen ≠ c.others i := fun all => moved (paid.current prev loaded all)
        have old := paid.past
        have few := paid.failed
        refine ⟨seen + 1, ?_, ?_, fun prev inside => ?_⟩
        · simp only [Cell.retry, Function.update_self]
          omega
        · show seen + 1 ≤ c.others i
          omega
        · simp [Cell.retry, setAttempt] at inside
      · refine ⟨seen, ?_, paid.past, fun prev loaded => ?_⟩
        · simpa [Cell.retry, same] using paid.failed
        · exact paid.current prev (by simpa [Cell.retry, setAttempt, same] using loaded)

theorem failed_le_others (reachable : (system update first).Reachable c) (i : Nat) :
    c.failed i ≤ c.others i := by
  have paid : ∃ seen, c.Paid i seen := by
    induction reachable with
    | initial start =>
        subst start
        exact ⟨0, Nat.le_refl _, Nat.zero_le _, fun prev loaded => by simp [new] at loaded⟩
    | next _ _ taken ih =>
        obtain ⟨seen, paid⟩ := ih
        exact (Change.of_step taken).paid paid
  obtain ⟨seen, paid⟩ := paid
  exact paid.failed.trans paid.past

end Cell
end KafkaProxy.Library
