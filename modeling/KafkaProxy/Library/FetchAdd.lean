import KafkaProxy.Library.System
import Mathlib.Algebra.BigOperators.Group.List.Basic
import Mathlib.Algebra.Group.Hom.Defs
import Mathlib.Algebra.Group.Nat.Hom
import Mathlib.Algebra.GroupWithZero.Nat

/-!
# Concurrent additions

Any number of calls add to one value. A call adds several amounts, each in a step of its own, and the
steps of the calls interleave. The additions commute, so once no call is under way the value is what
the calls add one after the other, and before that it differs by what is left of them.
-/

namespace KafkaProxy.Library

/-- `performed` is history. -/
structure Addition (ι M : Type) where
  input : ι
  performed : List M
  pending : List M

structure Added (ι M : Type) where
  value : M
  additions : List (Addition ι M)

inductive AddedAction (ι : Type) where
  | call (input : ι)
  | add (i : Nat)
  deriving DecidableEq, Repr

namespace Added

variable {ι M : Type}

def step [Add M] (plan : ι → List M) (s : Added ι M) : AddedAction ι → Option (Added ι M)
  | .call input => some { s with additions := s.additions ++ [⟨input, [], plan input⟩] }
  | .add i =>
      match s.additions[i]? with
      | some ⟨input, performed, amount :: rest⟩ =>
          some ⟨s.value + amount, s.additions.set i ⟨input, performed ++ [amount], rest⟩⟩
      | _ => none

def system [Add M] (plan : ι → List M) (first : M) : System (Added ι M) (AddedAction ι) where
  initial s := s = ⟨first, []⟩
  step := step plan

def quiet (s : Added ι M) : Bool := s.additions.all (·.pending.isEmpty)

section Sums
variable [AddCommMonoid M]

theorem sum_map_set {τ : Type} {f : τ → M} {l : List τ} {i : Nat} {before after : τ} {x : M}
    (current : l[i]? = some before) (more : f after = f before + x) :
    ((l.set i after).map f).sum = (l.map f).sum + x := by
  induction l generalizing i with
  | nil => simp at current
  | cons head rest ih =>
      cases i with
      | zero =>
          rw [List.getElem?_cons_zero, Option.some.injEq] at current
          rw [List.set_cons_zero, List.map_cons, List.map_cons, List.sum_cons, List.sum_cons, more,
            ← current, add_right_comm]
      | succ i =>
          rw [List.set_cons_succ, List.map_cons, List.map_cons, List.sum_cons, List.sum_cons,
            ih (by simpa using current), add_assoc]

structure Planned (plan : ι → List M) (first : M) (s : Added ι M) : Prop where
  value : s.value = first + (s.additions.map (·.performed.sum)).sum
  planned : ∀ addition ∈ s.additions, addition.performed ++ addition.pending = plan addition.input

variable {plan : ι → List M} {first : M} {s t : Added ι M}

theorem Planned.step {action : AddedAction ι} (planned : Planned plan first s)
    (taken : s.step plan action = some t) : Planned plan first t := by
  cases action with
  | call input =>
      cases taken
      refine ⟨?_, fun addition member => ?_⟩
      · simp [planned.value]
      · rcases List.mem_append.mp member with old | new
        · exact planned.planned addition old
        · obtain rfl := List.mem_singleton.mp new
          rfl
  | add i =>
      simp only [Added.step] at taken
      split at taken <;> cases taken
      rename_i input performed amount rest current
      refine ⟨?_, fun addition member => ?_⟩
      · have more : (performed ++ [amount]).sum = performed.sum + amount := by simp
        rw [sum_map_set (f := fun addition => addition.performed.sum) current more, ← add_assoc,
          ← planned.value]
      · rcases List.mem_or_eq_of_mem_set member with old | rfl
        · exact planned.planned addition old
        · have whole := planned.planned _ (List.mem_of_getElem? current)
          rw [List.append_assoc]
          exact whole

end Sums
end Added
end KafkaProxy.Library
