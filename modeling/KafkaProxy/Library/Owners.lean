import Mathlib.Data.Finset.Card
import KafkaProxy.Library.Table

/-!
# Tables whose entries have owners

Every entry of the table belongs to one owner, and every owner has its entry. It stays so where an
owner adds an entry for a key that is not there, removes its own, or hands it over.
-/

namespace KafkaProxy.Library

variable {ι κ ν : Type} [DecidableEq κ]

structure Owned (own : ι → Option (κ × ν)) (t : Table κ ν) : Prop where
  entry : ∀ k v, t.lookup k = some v ↔ ∃ i, own i = some (k, v)
  alone : ∀ i j k v w, own i = some (k, v) → own j = some (k, w) → i = j

namespace Owned

variable {own after : ι → Option (κ × ν)} {t : Table κ ν}

theorem none (missing : ∀ i, own i = Option.none) : Owned own ∅ where
  entry k v := by simp [missing]
  alone i j k v w found := by simp [missing] at found

theorem congr (owned : Owned own t) (same : ∀ i, after i = own i) : Owned after t := by
  obtain rfl : after = own := funext same
  exact owned

theorem lookup (owned : Owned own t) {i : ι} {k : κ} {v : ν} (found : own i = some (k, v)) :
    t.lookup k = some v :=
  (owned.entry k v).mpr ⟨i, found⟩

theorem insert (owned : Owned own t) {i : ι} {k : κ} {v : ν} (vacant : own i = Option.none)
    (fresh : t.lookup k = Option.none) (added : after i = some (k, v))
    (others : ∀ j, j ≠ i → after j = own j) : Owned after (t.insert k v) := by
  have absent {j : ι} {w : ν} (found : own j = some (k, w)) : False := by
    rw [owned.lookup found] at fresh
    cases fresh
  refine ⟨fun l w => ?_, fun a b l w x first second => ?_⟩
  · rw [Table.lookup_insert_eq_some, owned.entry]
    constructor
    · rintro (⟨rfl, rfl⟩ | ⟨_, j, found⟩)
      · exact ⟨i, added⟩
      · have other : j ≠ i := by
          rintro rfl
          rw [vacant] at found
          cases found
        exact ⟨j, (others j other).trans found⟩
    · rintro ⟨j, found⟩
      by_cases here : j = i
      · subst here
        cases added.symm.trans found
        exact .inl ⟨rfl, rfl⟩
      · rw [others j here] at found
        refine .inr ⟨?_, j, found⟩
        rintro rfl
        exact absent found
  · by_cases here : a = i
    · subst here
      cases added.symm.trans first
      by_contra other
      rw [others b (Ne.symm other)] at second
      exact absent second
    · rw [others a here] at first
      by_cases there : b = i
      · subst there
        cases added.symm.trans second
        exact (absent first).elim
      · rw [others b there] at second
        exact owned.alone a b l w x first second

theorem erase (owned : Owned own t) {i : ι} {k : κ} {v : ν} (held : own i = some (k, v))
    (removed : after i = Option.none) (others : ∀ j, j ≠ i → after j = own j) :
    Owned after (t.erase k) := by
  have still {j : ι} {l : κ} {w : ν} (found : after j = some (l, w)) : own j = some (l, w) ∧ j ≠ i := by
    have other : j ≠ i := by
      rintro rfl
      rw [removed] at found
      cases found
    exact ⟨(others j other).symm.trans found, other⟩
  refine ⟨fun l w => ?_, fun a b l w x first second => ?_⟩
  · rw [Table.lookup_erase_eq_some, owned.entry]
    constructor
    · rintro ⟨different, j, found⟩
      have other : j ≠ i := by
        rintro rfl
        cases held.symm.trans found
        exact different rfl
      exact ⟨j, (others j other).trans found⟩
    · rintro ⟨j, found⟩
      obtain ⟨before, other⟩ := still found
      refine ⟨?_, j, before⟩
      rintro rfl
      exact other (owned.alone j i l w v before held)
  · exact owned.alone a b l w x (still first).1 (still second).1

theorem handOver (owned : Owned own t) {i j : ι} (vacant : own j = Option.none) (given : after j = own i)
    (gone : after i = Option.none) (others : ∀ k, k ≠ i → k ≠ j → after k = own k) : Owned after t := by
  have source {a : ι} {k : κ} {v : ν} (found : after a = some (k, v)) :
      ∃ b, own b = some (k, v) ∧ (b = i ∧ a = j ∨ b = a ∧ a ≠ i ∧ a ≠ j) := by
    by_cases here : a = j
    · subst here
      exact ⟨i, given.symm.trans found, .inl ⟨rfl, rfl⟩⟩
    · have other : a ≠ i := by
        rintro rfl
        rw [gone] at found
        cases found
      exact ⟨a, (others a other here).symm.trans found, .inr ⟨rfl, other, here⟩⟩
  refine ⟨fun k v => ?_, fun a b k v w first second => ?_⟩
  · rw [owned.entry]
    constructor
    · rintro ⟨a, found⟩
      by_cases here : a = i
      · subst here
        exact ⟨j, given.trans found⟩
      · have other : a ≠ j := by
          rintro rfl
          rw [vacant] at found
          cases found
        exact ⟨a, (others a here other).trans found⟩
    · rintro ⟨a, found⟩
      obtain ⟨b, before, _⟩ := source found
      exact ⟨b, before⟩
  · obtain ⟨c, one, first⟩ := source first
    obtain ⟨d, two, second⟩ := source second
    have same := owned.alone c d k v w one two
    obtain ⟨rfl, rfl⟩ | ⟨rfl, other, _⟩ := first
    · obtain ⟨_, rfl⟩ | ⟨rfl, away, _⟩ := second
      · rfl
      · exact absurd same.symm away
    · obtain ⟨rfl, _⟩ | ⟨rfl, _⟩ := second
      · exact absurd same other
      · exact same

theorem card_eq_size (owned : Owned own t) (owners : Finset ι)
    (all : ∀ i, i ∈ owners ↔ (own i).isSome) : owners.card = t.size := by
  have keys : t.keys.toFinset.card = t.size := by
    rw [List.toFinset_card_of_nodup t.keys_nodup, Table.size_eq_keys]
  have present {i : ι} (member : i ∈ owners) : ∃ k v, own i = some (k, v) := by
    obtain ⟨⟨k, v⟩, found⟩ := Option.isSome_iff_exists.mp ((all i).mp member)
    exact ⟨k, v, found⟩
  rw [← keys]
  apply Finset.card_bij fun i member => ((own i).get ((all i).mp member)).1
  · intro i member
    obtain ⟨k, v, found⟩ := present member
    simp only [found, Option.get_some, List.mem_toFinset, ← AList.mem_keys]
    exact Table.mem_of_lookup (owned.lookup found)
  · intro i member j other same
    obtain ⟨k, v, found⟩ := present member
    obtain ⟨l, w, there⟩ := present other
    simp only [found, there, Option.get_some] at same
    subst same
    exact owned.alone i j k v w found there
  · intro k member
    rw [List.mem_toFinset, ← AList.mem_keys, ← AList.lookup_isSome, Option.isSome_iff_exists] at member
    obtain ⟨v, found⟩ := member
    obtain ⟨i, held⟩ := (owned.entry k v).mp found
    exact ⟨i, (all i).mpr (by rw [held]; rfl), by simp only [held, Option.get_some]⟩

end Owned
end KafkaProxy.Library
