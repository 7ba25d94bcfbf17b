import Mathlib.Data.List.Induction
import KafkaProxy.Metrics.Histogram

/-!
# Cumulative buckets
-/

namespace KafkaProxy.Histogram
open Library

def observeAll (buckets observations : List ℚ) : Histogram :=
  observations.foldl observe (withBuckets buckets)

variable {buckets : List ℚ}

theorem observeAll_concat (observations : List ℚ) (secs : ℚ) :
    observeAll buckets (observations ++ [secs]) = (observeAll buckets observations).observe secs :=
  List.foldl_concat ..

theorem buckets_observeAll (observations : List ℚ) :
    (observeAll buckets observations).buckets = buckets := by
  induction observations using List.reverseRecOn with
  | nil => rfl
  | append_singleton observations secs ih => rwa [observeAll_concat, observe]

theorem bucketOf_observeAll (observations : List ℚ) (secs : ℚ) :
    (observeAll buckets observations).bucketOf secs = (withBuckets buckets).bucketOf secs := by
  rw [bucketOf, buckets_observeAll]
  rfl

theorem count_observeAll (observations : List ℚ) :
    (observeAll buckets observations).count = observations.length := by
  induction observations using List.reverseRecOn with
  | nil => rfl
  | append_singleton observations secs ih =>
      rw [observeAll_concat, observe, ih, List.length_append, List.length_singleton]

theorem counts_observeAll (observations : List ℚ) {i : Nat} (inside : i ≤ buckets.length) :
    (observeAll buckets observations).counts[i]? =
      some (observations.countP fun secs => (withBuckets buckets).bucketOf secs ≤ i) := by
  induction observations using List.reverseRecOn with
  | nil => exact List.getElem?_replicate_of_lt (Nat.lt_succ_of_le inside)
  | append_singleton observations secs ih =>
      rw [observeAll_concat, observe, List.getElem?_mapIdx, ih, bucketOf_observeAll,
        List.countP_append, List.countP_singleton, Option.map_some]
      congr 1
      by_cases counted : (withBuckets buckets).bucketOf secs ≤ i <;> simp [counted]

section Increasing
variable (increasing : buckets.Pairwise (· < ·))
include increasing

theorem bucketOf_position (secs : ℚ) : (withBuckets buckets).bucketOf secs ≤ buckets.length ∧
    ∀ (i : Nat) bound, buckets[i]? = some bound →
      (secs ≤ bound ↔ (withBuckets buckets).bucketOf secs ≤ i) := by
  obtain ⟨p, inside, found, position⟩ := binarySearchBy_position increasing secs
  have bucket : (withBuckets buckets).bucketOf secs = p := by
    rcases found with found | found <;> rw [bucketOf, withBuckets, found]
  rw [bucket]
  exact ⟨inside, position⟩

theorem countP_bucketOf (observations : List ℚ) {i : Nat} {bound : ℚ}
    (element : buckets[i]? = some bound) :
    observations.countP (fun secs => (withBuckets buckets).bucketOf secs ≤ i) =
      observations.countP (· ≤ bound) := by
  apply List.countP_congr
  intro secs _
  simp only [decide_eq_true_eq]
  exact ((bucketOf_position increasing secs).2 i bound element).symm

theorem countP_bucketOf_last (observations : List ℚ) :
    observations.countP (fun secs => (withBuckets buckets).bucketOf secs ≤ buckets.length) =
      observations.length := by
  rw [List.countP_eq_length]
  intro secs _
  exact decide_eq_true (bucketOf_position increasing secs).1

end Increasing

theorem counts_le (observations : List ℚ) :
    (observeAll buckets observations).counts.Pairwise (· ≤ ·) := by
  rw [List.pairwise_iff_getElem]
  intro i j i_lt j_lt before
  have sized := (observeAll buckets observations).sized
  rw [buckets_observeAll] at sized
  have first := counts_observeAll observations (show i ≤ buckets.length by omega)
  have second := counts_observeAll observations (show j ≤ buckets.length by omega)
  rw [List.getElem?_eq_getElem i_lt, Option.some_inj] at first
  rw [List.getElem?_eq_getElem j_lt, Option.some_inj] at second
  rw [first, second]
  apply List.countP_mono_left
  intro secs _ counted
  exact decide_eq_true ((of_decide_eq_true counted).trans before.le)

theorem counts_cumulative (increasing : buckets.Pairwise (· < ·)) (observations : List ℚ) :
    (∀ (i : Nat) bound, buckets[i]? = some bound →
      (observeAll buckets observations).counts[i]? = some (observations.countP (· ≤ bound))) ∧
    (observeAll buckets observations).counts.Pairwise (· ≤ ·) ∧
    (observeAll buckets observations).counts.getLast? =
      some (observeAll buckets observations).count ∧
    (observeAll buckets observations).count = observations.length := by
  refine ⟨fun i bound element => ?_, counts_le observations, ?_, count_observeAll observations⟩
  · have inside : i < buckets.length := (List.getElem?_eq_some_iff.mp element).1
    rw [counts_observeAll observations inside.le, countP_bucketOf increasing observations element]
  · have sized := (observeAll buckets observations).sized
    rw [buckets_observeAll] at sized
    rw [List.getLast?_eq_getElem?, sized, Nat.add_sub_cancel,
      counts_observeAll observations le_rfl, countP_bucketOf_last increasing, count_observeAll]

theorem counts_cumulative_two : [(1 : ℚ), 2].Pairwise (· < ·) ∧
    (observeAll [1, 2] [2, 1, 3]).counts[0]? = some ([(2 : ℚ), 1, 3].countP (· ≤ 1)) :=
  have increasing : [(1 : ℚ), 2].Pairwise (· < ·) := by decide +kernel
  ⟨increasing, (counts_cumulative increasing [2, 1, 3]).1 0 1 rfl⟩

end KafkaProxy.Histogram
