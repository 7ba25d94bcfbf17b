import Mathlib.Data.Rat.Floor
import KafkaProxy.Library.BinarySearch

/-!
# Histograms

Bounds and observations are exact rationals in the place of `f64` values.
-/

namespace KafkaProxy
open Library

/-- `as u64` on an `f64` value: the fraction goes, and what is out of range becomes the nearest bound. -/
def asU64 (q : ℚ) : Nat := min q.floor.toNat (2 ^ 64 - 1)

inductive Label where
  | none
  | dir (direction : String)
  | le (bound : ℚ)
  | inf
  deriving DecidableEq

structure Sample where
  name : String
  label : Label
  value : ℚ
  deriving DecidableEq

structure Histogram where
  buckets : List ℚ
  counts : List Nat
  sumMicros : Nat
  count : Nat
  sized : counts.length = buckets.length + 1

namespace Histogram

def defaultBuckets : List ℚ :=
  [1 / 10000, 5 / 10000, 1 / 1000, 5 / 1000, 1 / 100, 5 / 100, 1 / 10, 5 / 10, 1, 5]

def withBuckets (buckets : List ℚ) : Histogram :=
  ⟨buckets, List.replicate (buckets.length + 1) 0, 0, 0, List.length_replicate⟩

def new : Histogram := withBuckets defaultBuckets

def bucketOf (h : Histogram) (secs : ℚ) : Nat :=
  match binarySearchBy h.buckets fun bound => compare bound secs with
  | .ok i => i
  | .error i => i

def observe (h : Histogram) (secs : ℚ) : Histogram where
  buckets := h.buckets
  counts := h.counts.mapIdx fun i c => if h.bucketOf secs ≤ i then c + 1 else c
  sumMicros := h.sumMicros + asU64 (secs * 1000000)
  count := h.count + 1
  sized := List.length_mapIdx.trans h.sized

def render (h : Histogram) (name : String) : List Sample :=
  List.zipWith (fun bound c => ⟨name ++ "_bucket", .le bound, c⟩) h.buckets h.counts ++
    [⟨name ++ "_bucket", .inf, h.counts.getD h.buckets.length 0⟩,
      ⟨name ++ "_sum", .none, h.sumMicros / 1000000⟩, ⟨name ++ "_count", .none, h.count⟩]

theorem count_mem_render (h : Histogram) (name : String) :
    ⟨name ++ "_count", .none, h.count⟩ ∈ h.render name := by
  simp [render]

theorem render_zero {h : Histogram} {name : String} (counts : ∀ c ∈ h.counts, c = 0)
    (sum : h.sumMicros = 0) (count : h.count = 0) : ∀ sample ∈ h.render name, sample.value = 0 := by
  intro sample member
  rw [render, List.mem_append, ← List.map_uncurry_zip_eq_zipWith] at member
  rcases member with bucket | total
  · obtain ⟨⟨bound, c⟩, paired, rfl⟩ := List.mem_map.mp bucket
    have zero := counts c (List.of_mem_zip paired).2
    simp [zero]
  · have last : h.counts.getD h.buckets.length 0 = 0 := by
      have inside : h.buckets.length < h.counts.length := h.sized ▸ Nat.lt_succ_self _
      rw [List.getD_eq_getElem?_getD, List.getElem?_eq_getElem inside]
      exact counts _ (List.getElem_mem _)
    simp only [List.mem_cons, List.not_mem_nil, or_false, last, sum, count] at total
    rcases total with rfl | rfl | rfl <;> simp

theorem render_new (name : String) : ∀ sample ∈ new.render name, sample.value = 0 :=
  render_zero (fun _ member => (List.mem_replicate.mp member).2) rfl rfl

end Histogram

example : ((((Histogram.new.observe (5 / 100000)).observe (2 / 1000)).observe 10).counts =
    [1, 1, 1, 2, 2, 2, 2, 2, 2, 2, 3]) := by decide +kernel

end KafkaProxy
