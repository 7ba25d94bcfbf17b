import Mathlib.Data.Option.Basic
import Mathlib.Data.Nat.Basic
import Mathlib.Order.Lattice

/-!
# Values that take their time

A computation that waits has a value after some time, or it never ends. A timer does not fire early, and
a value that is there when the timer fires counts.
-/

namespace KafkaProxy.Library

def Timed (α : Type) : Type := Option (Nat × α)

structure Timer (duration : Nat) where
  fires : Nat
  notEarly : duration ≤ fires

namespace Timed

variable {α β : Type} {d : Nat}

def after (time : Nat) (a : α) : Timed α := some (time, a)

def never : Timed α := none

instance : Monad Timed where
  pure a := after 0 a
  bind x f := Option.bind x fun (time, a) => Option.map (fun (later, b) => (time + later, b)) (f a)

theorem after_bind (time : Nat) (a : α) (f : α → Timed β) :
    (after time a >>= f) = Option.map (fun (later, b) => (time + later, b)) (f a) := rfl

/-! ## Timeouts -/

def inTime (timer : Timer d) (x : Timed α) : Option α :=
  Option.bind x fun (time, a) => if time ≤ timer.fires then some a else none

def ends (timer : Timer d) (x : Timed α) : Nat :=
  match x with
  | some (time, _) => min time timer.fires
  | none => timer.fires

def timeout (timer : Timer d) (x : Timed α) : Timed (Option α) := after (x.ends timer) (x.inTime timer)

theorem inTime_after (timer : Timer d) (time : Nat) (a : α) :
    (after time a).inTime timer = if time ≤ timer.fires then some a else none := rfl

theorem inTime_eq_some {timer : Timer d} {x : Timed α} {a : α} :
    x.inTime timer = some a ↔ ∃ time ≤ timer.fires, x = after time a := by
  cases x with
  | none =>
      apply iff_of_false
      · intro there
        cases there
      · rintro ⟨_, _, there⟩
        cases there
  | some value =>
      obtain ⟨time, b⟩ := value
      have known : (some (time, b) : Timed α) = after time b := rfl
      rw [known, inTime_after]
      by_cases early : time ≤ timer.fires
      · rw [if_pos early, Option.some.injEq]
        constructor
        · rintro rfl
          exact ⟨time, early, rfl⟩
        · rintro ⟨_, _, same⟩
          cases same
          rfl
      · rw [if_neg early]
        apply iff_of_false
        · intro there
          cases there
        · rintro ⟨_, before, same⟩
          cases same
          exact early before

theorem ends_le (timer : Timer d) (x : Timed α) : x.ends timer ≤ timer.fires := by
  unfold ends
  split
  · exact min_le_right _ _
  · exact le_rfl

/-! ## Several at a time -/

/-- All of them together end with the last one. -/
def joinAll : List (Timed α) → Timed (List α)
  | [] => after 0 []
  | x :: rest =>
      Option.bind x fun (time, a) =>
        Option.map (fun (later, values) => (max time later, a :: values)) (joinAll rest)

theorem joinAll_after (time : β → Nat) (value : β → α) (l : List β) :
    joinAll (l.map fun b => after (time b) (value b)) = after ((l.map time).foldr max 0) (l.map value) := by
  induction l with
  | nil => rfl
  | cons b l ih =>
      rw [List.map_cons, joinAll, ih]
      rfl

theorem foldr_max_le {bound : Nat} (times : List Nat) (all : ∀ time ∈ times, time ≤ bound) :
    times.foldr max 0 ≤ bound := by
  induction times with
  | nil => exact Nat.zero_le bound
  | cons time times ih =>
      apply max_le
      · exact all time List.mem_cons_self
      · exact ih fun later member => all later (List.mem_cons_of_mem _ member)

theorem timeout_joinAll (outer : Timer d) (time : β → Nat) (value : β → α) (l : List β)
    (early : ∀ b ∈ l, time b ≤ outer.fires) :
    ∃ ends ≤ outer.fires, timeout outer (joinAll (l.map fun b => after (time b) (value b))) =
      after ends (some (l.map value)) := by
  have last : (l.map time).foldr max 0 ≤ outer.fires := by
    apply foldr_max_le
    intro ends member
    obtain ⟨b, listed, rfl⟩ := List.mem_map.mp member
    exact early b listed
  refine ⟨_, last, ?_⟩
  rw [joinAll_after, timeout, inTime_after, if_pos last]
  exact congrArg (after · _) (min_eq_left last)

end Timed
end KafkaProxy.Library
