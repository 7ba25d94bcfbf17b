import Mathlib.Order.Compare
import Mathlib.Order.Lattice
import Mathlib.Order.Nat

/-!
# Binary search

The search of Rust's slices: it halves the range without looking at whether it has found an equal
element, and compares once more at the end. In a list that increases strictly it finds the position
at which the elements stop being below the one that is looked for.
-/

namespace KafkaProxy.Library

def searchBase {α : Type} (order : α → Ordering) (xs : List α) : Nat → Nat → Nat → Nat
  | 0, _, base => base
  | fuel + 1, size, base =>
      if 1 < size then
        let half := size / 2
        let mid := base + half
        let base := if (xs[mid]?.map order) = some .gt then base else mid
        searchBase order xs fuel (size - half) base
      else base

/-- The position of an equal element, or where one would have to be inserted. -/
def binarySearchBy {α : Type} (xs : List α) (order : α → Ordering) : Except Nat Nat :=
  let base := searchBase order xs xs.length xs.length 0
  match xs[base]?.map order with
  | some .eq => .ok base
  | some .lt => .error (base + 1)
  | some .gt => .error base
  | none => .error 0

section Search
variable {α : Type} {order : α → Ordering} {xs : List α}

structure Narrowed (order : α → Ordering) (xs : List α) (size base : Nat) : Prop where
  positive : 0 < size
  inside : base + size ≤ xs.length
  notAbove : base = 0 ∨ xs[base]?.map order ≠ some .gt
  above : ∀ i, base + size ≤ i → i < xs.length → xs[i]?.map order = some .gt

def Separates (order : α → Ordering) (xs : List α) : Prop :=
  ∀ i j, i ≤ j → j < xs.length → xs[i]?.map order = some .gt → xs[j]?.map order = some .gt

theorem Narrowed.searchBase (separates : Separates order xs) {fuel size base : Nat}
    (narrowed : Narrowed order xs size base) (enough : size ≤ fuel + 1) :
    Narrowed order xs 1 (searchBase order xs fuel size base) := by
  induction fuel generalizing size base with
  | zero =>
      have one : size = 1 := by
        have positive := narrowed.positive
        omega
      exact one ▸ narrowed
  | succ fuel ih =>
      obtain ⟨positive, inside, notAbove, above⟩ := narrowed
      unfold Library.searchBase
      split
      · apply ih _ (by omega)
        by_cases high : xs[base + size / 2]?.map order = some .gt
        · rw [if_pos high]
          refine ⟨by omega, by omega, notAbove, fun i after within => ?_⟩
          exact separates _ i (by omega) within high
        · rw [if_neg high]
          exact ⟨by omega, by omega, .inr high, fun i after => above i (by omega)⟩
      · have one : size = 1 := by omega
        subst one
        exact ⟨positive, inside, notAbove, above⟩

theorem narrowed_searchBase (separates : Separates order xs) (nonempty : xs ≠ []) :
    Narrowed order xs 1 (Library.searchBase order xs xs.length xs.length 0) := by
  apply Narrowed.searchBase separates _ (Nat.le_succ _)
  exact ⟨List.length_pos_iff.mpr nonempty, by omega, .inl rfl, fun i after within => by omega⟩

end Search

section Increasing
variable {α : Type} [LinearOrder α] {xs : List α}

theorem getElem?_lt_getElem? (increasing : xs.Pairwise (· < ·)) {i j : Nat} {y z : α}
    (first : xs[i]? = some y) (second : xs[j]? = some z) (before : i < j) : y < z := by
  obtain ⟨i_lt, rfl⟩ := List.getElem?_eq_some_iff.mp first
  obtain ⟨j_lt, rfl⟩ := List.getElem?_eq_some_iff.mp second
  exact List.pairwise_iff_getElem.mp increasing i j i_lt j_lt before

theorem separates_compare (increasing : xs.Pairwise (· < ·)) (x : α) :
    Separates (fun y => compare y x) xs := by
  intro i j before within above
  obtain ⟨y, found, high⟩ := Option.map_eq_some_iff.mp above
  have last : xs[j]? = some xs[j] := List.getElem?_eq_getElem within
  rw [last, Option.map_some, compare_gt_iff_gt.mpr]
  rcases Nat.eq_or_lt_of_le before with rfl | before
  · rw [found, Option.some_inj] at last
    exact last ▸ compare_gt_iff_gt.mp high
  · exact (compare_gt_iff_gt.mp high).trans (getElem?_lt_getElem? increasing found last before)

theorem binarySearchBy_position (increasing : xs.Pairwise (· < ·)) (x : α) :
    ∃ p ≤ xs.length, (binarySearchBy xs (fun y => compare y x) = .ok p ∨
        binarySearchBy xs (fun y => compare y x) = .error p) ∧
      ∀ (i : Nat) y, xs[i]? = some y → (x ≤ y ↔ p ≤ i) := by
  rcases eq_or_ne xs [] with rfl | nonempty
  · exact ⟨0, le_rfl, .inr rfl, fun i y element => nomatch element⟩
  have narrowed := narrowed_searchBase (separates_compare increasing x) nonempty
  unfold binarySearchBy
  dsimp only
  generalize searchBase (fun y => compare y x) xs xs.length xs.length 0 = base at narrowed ⊢
  obtain ⟨-, inside, notAbove, above⟩ := narrowed
  have here : xs[base]? = some xs[base] := List.getElem?_eq_getElem (by omega)
  rw [here] at notAbove ⊢
  simp only [Option.map_some, ne_eq, Option.some_inj] at notAbove ⊢
  have earlier (i : Nat) (y : α) (element : xs[i]? = some y) (before : i < base) : y < xs[base] :=
    getElem?_lt_getElem? increasing element here before
  have same (i : Nat) (y : α) (element : xs[i]? = some y) (equal : i = base) : y = xs[base] :=
    Option.some_inj.mp (element.symm.trans (equal ▸ here))
  have later (i : Nat) (y : α) (element : xs[i]? = some y) (after : base < i) : x < y := by
    have high := above i (by omega) (List.getElem?_eq_some_iff.mp element).1
    rw [element, Option.map_some, Option.some_inj] at high
    exact compare_gt_iff_gt.mp high
  cases order : compare xs[base] x with
  | lt =>
      have low : xs[base] < x := compare_lt_iff_lt.mp order
      refine ⟨base + 1, by omega, .inr rfl, fun i y element => ?_⟩
      rcases lt_trichotomy i base with before | equal | after
      · exact iff_of_false (not_le.mpr ((earlier i y element before).trans low)) (by omega)
      · exact iff_of_false (not_le.mpr (same i y element equal ▸ low)) (by omega)
      · exact iff_of_true (later i y element after).le after
  | eq =>
      have equals : xs[base] = x := compare_eq_iff_eq.mp order
      refine ⟨base, by omega, .inl rfl, fun i y element => ?_⟩
      rcases lt_trichotomy i base with before | equal | after
      · exact iff_of_false (not_le.mpr (equals ▸ earlier i y element before)) (by omega)
      · exact iff_of_true (same i y element equal ▸ equals.ge) equal.ge
      · exact iff_of_true (later i y element after).le after.le
  | gt =>
      have high : x < xs[base] := compare_gt_iff_gt.mp order
      have first : base = 0 := notAbove.resolve_right (not_not.mpr order)
      refine ⟨base, by omega, .inr rfl, fun i y element => ?_⟩
      rcases Nat.eq_or_lt_of_le (first ▸ i.zero_le : base ≤ i) with equal | after
      · exact iff_of_true (same i y element equal.symm ▸ high.le) equal.le
      · exact iff_of_true (later i y element after).le after.le

end Increasing

end KafkaProxy.Library
