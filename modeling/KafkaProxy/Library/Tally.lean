import Mathlib.Data.Finset.Card
import Mathlib.Logic.Function.Basic

/-!
# Counting among numbered tasks

Finitely many of the tasks `f 0`, `f 1`, ... pass a test. A step changes one task, and the number by
at most one.
-/

namespace KafkaProxy.Library

variable {τ : Type}

def Tally (test : τ → Bool) (f : Nat → τ) (n : Nat) : Prop :=
  ∃ members : Finset Nat, (∀ i, i ∈ members ↔ test (f i) = true) ∧ members.card = n

variable {test : τ → Bool} {f : Nat → τ} {n k : Nat}

namespace Tally

theorem none (fail : ∀ i, test (f i) = false) : Tally test f 0 :=
  ⟨∅, fun i => by simp [fail i], rfl⟩

theorem eq_zero (tally : Tally test f n) (fail : ∀ i, test (f i) = false) : n = 0 := by
  obtain ⟨members, same, rfl⟩ := tally
  rw [Finset.card_eq_zero, Finset.eq_empty_iff_forall_notMem]
  intro i member
  rw [same, fail i] at member
  cases member

theorem pos (tally : Tally test f n) {i : Nat} (passes : test (f i) = true) : 0 < n := by
  obtain ⟨members, same, rfl⟩ := tally
  exact Finset.card_pos.mpr ⟨i, (same i).mpr passes⟩

theorem update (tally : Tally test f n) (i : Nat) (after : τ)
    (count : k + (test (f i)).toNat = n + (test after).toNat) :
    Tally test (Function.update f i after) k := by
  obtain ⟨members, same, rfl⟩ := tally
  have others (j : Nat) (other : j ≠ i) : Function.update f i after j = f j :=
    Function.update_of_ne other after f
  cases passes : test after with
  | true =>
      refine ⟨insert i members, fun j => ?_, ?_⟩
      · by_cases here : j = i
        · subst here
          simp [passes]
        · rw [Finset.mem_insert, others j here, same]
          simp [here]
      · cases passed : test (f i) with
        | true =>
            rw [Finset.insert_eq_of_mem ((same i).mpr passed)]
            simpa [passes, passed] using count.symm
        | false =>
            rw [Finset.card_insert_of_notMem (by simp [same, passed])]
            simpa [passes, passed] using count.symm
  | false =>
      refine ⟨members.erase i, fun j => ?_, ?_⟩
      · by_cases here : j = i
        · subst here
          simp [passes]
        · rw [Finset.mem_erase, others j here, same]
          simp [here]
      · cases passed : test (f i) with
        | true =>
            have one := Finset.card_erase_add_one ((same i).mpr passed)
            simp only [passes, passed, Bool.toNat_true, Bool.toNat_false] at count
            omega
        | false =>
            rw [Finset.erase_eq_of_notMem (by simp [same, passed])]
            simpa [passes, passed] using count.symm

theorem update_same (tally : Tally test f n) {i : Nat} {after : τ} (same : test after = test (f i)) :
    Tally test (Function.update f i after) n :=
  tally.update i after (by rw [same])

theorem le {ω : Type} {other : ω → Bool} {g : Nat → ω} (tally : Tally test f n) (more : Tally other g k)
    (within : ∀ i, test (f i) = true → other (g i) = true) : n ≤ k := by
  obtain ⟨members, same, rfl⟩ := tally
  obtain ⟨others, also, rfl⟩ := more
  apply Finset.card_le_card
  intro i member
  exact (also i).mpr (within i ((same i).mp member))

end Tally
end KafkaProxy.Library
