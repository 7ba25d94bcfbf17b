import KafkaProxy.Library.Table
import Mathlib.Data.List.Sort

/-!
# Groups and sorting

A stable sort by a key, and a hash map from each key to its values in the order in which they came. A
hash map is iterated in an order that nobody knows.
-/

namespace KafkaProxy.Library

variable {α κ : Type}

section Sorting

variable [LinearOrder κ]

def sortByKey (key : α → κ) (xs : List α) : List α := xs.insertionSort fun a b => key a ≤ key b

theorem perm_sortByKey (key : α → κ) (xs : List α) : (sortByKey key xs).Perm xs :=
  List.perm_insertionSort _ xs

@[simp] theorem length_sortByKey (key : α → κ) (xs : List α) : (sortByKey key xs).length = xs.length :=
  (perm_sortByKey key xs).length_eq

@[simp] theorem mem_sortByKey {key : α → κ} {xs : List α} {x : α} : x ∈ sortByKey key xs ↔ x ∈ xs :=
  (perm_sortByKey key xs).mem_iff

theorem pairwise_sortByKey (key : α → κ) (xs : List α) :
    (sortByKey key xs).Pairwise fun a b => key a ≤ key b := by
  have total : Std.Total fun a b : α => key a ≤ key b := ⟨fun a b => le_total (key a) (key b)⟩
  have trans : IsTrans α fun a b : α => key a ≤ key b := ⟨fun _ _ _ => le_trans⟩
  exact List.pairwise_insertionSort _ xs

theorem pairwise_lt_sortByKey {key : α → κ} {xs : List α} (nodup : (xs.map key).Nodup) :
    (sortByKey key xs).Pairwise fun a b => key a < key b := by
  have apart : ((sortByKey key xs).map key).Nodup := ((perm_sortByKey key xs).map key).nodup_iff.mpr nodup
  rw [List.nodup_iff_pairwise_ne, List.pairwise_map] at apart
  apply (pairwise_sortByKey key xs).imp₂ _ apart
  exact fun a b below different => lt_of_le_of_ne below different

end Sorting

/-! ## Groups -/

/-- An order of iteration. It changes from one run to the next. -/
structure Iteration (κ ν : Type) where
  arrange : List ((_ : κ) × ν) → List ((_ : κ) × ν)
  perm : ∀ entries, (arrange entries).Perm entries

namespace Table

variable [DecidableEq κ] {key : α → κ} {xs : List α}

def push (t : Table κ (List α)) (k : κ) (x : α) : Table κ (List α) :=
  t.insert k ((t.lookup k).getD [] ++ [x])

def groupBy (key : α → κ) (xs : List α) : Table κ (List α) :=
  xs.foldl (fun t x => t.push (key x) x) ∅

theorem lookup_push (t : Table κ (List α)) (k l : κ) (x : α) :
    ((t.push k x).lookup l).getD [] = (t.lookup l).getD [] ++ if l = k then [x] else [] := by
  unfold push
  by_cases same : l = k
  · subst same
    rw [AList.lookup_insert, if_pos rfl]
    rfl
  · rw [AList.lookup_insert_ne same, if_neg same, List.append_nil]

theorem lookup_groupBy (k : κ) :
    ((groupBy key xs).lookup k).getD [] = xs.filter fun x => k = key x := by
  induction xs using List.reverseRecOn with
  | nil => rfl
  | append_singleton xs x ih =>
      rw [groupBy, List.foldl_append, List.foldl_cons, List.foldl_nil, lookup_push, List.filter_append]
      rw [groupBy] at ih
      rw [ih]
      by_cases same : k = key x <;> simp [same]

theorem group_eq {k : κ} {group : List α} (member : ⟨k, group⟩ ∈ (groupBy key xs).entries) :
    group = xs.filter fun x => k = key x := by
  have found := AList.mem_lookup_iff.mpr member
  rw [← lookup_groupBy, Option.mem_def.mp found]
  rfl

theorem perm_push (t : Table κ (List α)) (k : κ) (x : α) :
    ((t.push k x).entries.flatMap (·.2)).Perm (x :: t.entries.flatMap (·.2)) := by
  unfold push
  rw [AList.entries_insert, List.flatMap_cons, List.append_assoc]
  cases found : t.lookup k with
  | none =>
      rw [List.kerase_of_notMem_keys (AList.lookup_eq_none.mp found)]
      exact List.Perm.refl _
  | some group =>
      have split : (t.entries.flatMap (·.2)).Perm (group ++ (t.erase k).entries.flatMap (·.2)) :=
        (perm_erase found).flatMap_right _
      exact List.perm_middle.trans (split.symm.cons x)

theorem perm_groupBy (key : α → κ) (xs : List α) :
    ((groupBy key xs).entries.flatMap (·.2)).Perm xs := by
  induction xs using List.reverseRecOn with
  | nil => exact List.Perm.refl _
  | append_singleton xs x ih =>
      rw [groupBy, List.foldl_append, List.foldl_cons, List.foldl_nil]
      exact (perm_push _ _ _).trans ((ih.cons x).trans (List.perm_append_singleton x xs).symm)

end Table
end KafkaProxy.Library
