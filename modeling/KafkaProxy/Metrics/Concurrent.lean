import Mathlib.Algebra.Group.Pi.Lemmas
import Mathlib.Algebra.Group.Prod
import KafkaProxy.Library.FetchAdd
import KafkaProxy.Metrics.Cumulative

/-!
# Concurrent observations

An observation adds to the sum, then to the count, then to its bucket and all later ones, each with an
atomic addition of its own. The export reads the counters one after the other.
-/

namespace KafkaProxy.Histogram
open Library

abbrev Counters := Nat × Nat × (Nat → Nat)

namespace Counters

def sumMicros : Counters →+ Nat := AddMonoidHom.fst _ _

def count : Counters →+ Nat := (AddMonoidHom.fst _ _).comp (AddMonoidHom.snd _ _)

def bucket (i : Nat) : Counters →+ Nat :=
  (Pi.evalAddMonoidHom (fun _ => Nat) i).comp ((AddMonoidHom.snd _ _).comp (AddMonoidHom.snd _ _))

def addToBucket (i : Nat) : Counters := (0, 0, Pi.single i 1)

theorem ext {a b : Counters} (sums : sumMicros a = sumMicros b) (counts : count a = count b)
    (buckets : ∀ i, bucket i a = bucket i b) : a = b :=
  Prod.ext sums (Prod.ext counts (funext buckets))

end Counters

def additions (buckets : List ℚ) (secs : ℚ) : List Counters :=
  let idx := (withBuckets buckets).bucketOf secs
  (asU64 (secs * 1000000), 0, 0) :: (0, 1, 0) ::
    (List.range' idx (buckets.length + 1 - idx)).map Counters.addToBucket

variable {buckets : List ℚ}

/-! ## What an observation adds -/

section Performed
variable {performed pending : List Counters} {secs : ℚ}

end Performed

end KafkaProxy.Histogram
