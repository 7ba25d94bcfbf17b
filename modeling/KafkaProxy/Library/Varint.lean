import Mathlib.Tactic.Ring

/-!
# Base-128 numbers

A number in groups of seven bits, the lowest first. Every byte but the last has its high bit set, so a
reader knows where the number ends.
-/

namespace KafkaProxy.Library.Varint

def decode : List UInt8 → Option (Nat × List UInt8)
  | [] => none
  | byte :: rest =>
      if byte.toNat < 128 then some (byte.toNat, rest)
      else (decode rest).map fun (high, after) => (byte.toNat % 128 + 128 * high, after)

/-- `bytes` is one of the ways to write `n`. -/
def Spells (bytes : List UInt8) (n : Nat) : Prop := decode bytes = some (n, [])

variable {bytes other rest after : List UInt8} {n m : Nat}

theorem decode_last {byte : UInt8} (small : byte.toNat < 128) :
    decode (byte :: rest) = some (byte.toNat, rest) := by
  rw [decode, if_pos small]

theorem decode_more {byte : UInt8} (big : 128 ≤ byte.toNat) :
    decode (byte :: rest) = (decode rest).map fun (high, after) => (byte.toNat % 128 + 128 * high, after) := by
  rw [decode, if_neg (Nat.not_lt.mpr big)]

theorem decode_append (read : decode bytes = some (n, rest)) :
    decode (bytes ++ after) = some (n, rest ++ after) := by
  induction bytes generalizing n with
  | nil => cases read
  | cons byte bytes ih =>
      rcases Nat.lt_or_ge byte.toNat 128 with small | big
      · rw [decode_last small] at read
        cases read
        exact decode_last small
      · rw [decode_more big] at read
        obtain ⟨⟨high, left⟩, found, same⟩ := Option.map_eq_some_iff.mp read
        cases same
        rw [List.cons_append, decode_more big, ih found]
        rfl

theorem decode_front (read : decode bytes = some (n, rest)) :
    ∃ front, bytes = front ++ rest ∧ Spells front n ∧ n < 128 ^ front.length := by
  induction bytes generalizing n with
  | nil => cases read
  | cons byte bytes ih =>
      rcases Nat.lt_or_ge byte.toNat 128 with small | big
      · rw [decode_last small] at read
        cases read
        exact ⟨[byte], rfl, decode_last small, by simpa using small⟩
      · rw [decode_more big] at read
        obtain ⟨⟨high, left⟩, found, same⟩ := Option.map_eq_some_iff.mp read
        cases same
        obtain ⟨front, rfl, spells, bound⟩ := ih found
        refine ⟨byte :: front, rfl, ?_, ?_⟩
        · rw [Spells, decode_more big, show decode front = some (high, []) from spells]
          rfl
        · have low : byte.toNat % 128 < 128 := Nat.mod_lt _ (by decide)
          rw [List.length_cons, pow_succ]
          omega

theorem Spells.lt (spells : Spells bytes n) : n < 128 ^ bytes.length := by
  obtain ⟨front, same, _, bound⟩ := decode_front spells
  rwa [same, List.append_nil]

theorem Spells.unique (first : Spells bytes n) (second : Spells other m)
    (same : bytes ++ rest = other ++ after) : n = m ∧ rest = after := by
  have left : decode (bytes ++ rest) = some (n, [] ++ rest) := decode_append first
  have right : decode (other ++ after) = some (m, [] ++ after) := decode_append second
  rw [same, right] at left
  cases left
  exact ⟨rfl, rfl⟩

end KafkaProxy.Library.Varint
