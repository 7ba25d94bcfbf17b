import KafkaProxy.Library.Varint
import KafkaProxy.Rewrite

/-!
# The varint of the flexible format

The rewriters write the number of tagged fields with it, after the correlation id.
-/

namespace KafkaProxy
open Library

/-- The loop of `encode_unsigned_varint`, which puts its bytes at the end of a buffer. -/
def putUnsignedVarint (buf : Frame) (value : UInt32) : Frame :=
  if 0x80 ≤ value then putUnsignedVarint (buf ++ [value.toUInt8 ||| 0x80]) (value >>> 7)
  else buf ++ [value.toUInt8]
termination_by value.toNat
decreasing_by
  have big : 0x80 ≤ value.toNat := by assumption
  simp only [UInt32.toNat_shiftRight, UInt32.reduceToNat, Nat.reduceMod, Nat.shiftRight_eq_div_pow]
  omega

theorem or_high_bit (byte : UInt8) : (byte ||| 0x80).toNat = byte.toNat % 128 + 128 := by
  have all : ∀ b : Fin 256, b.val ||| 128 = b.val % 128 + 128 := by decide +kernel
  rw [UInt8.toNat_or]
  exact all ⟨byte.toNat, byte.toNat_lt⟩

theorem putUnsignedVarint_eq (buf : Frame) (value : UInt32) :
    putUnsignedVarint buf value = buf ++ encodeUnsignedVarint value.toNat := by
  induction buf, value using putUnsignedVarint.induct with
  | case1 buf value big ih =>
      have continues : ¬ value.toNat < 0x80 := by simpa [UInt32.le_iff_toNat_le] using big
      have shifted : (value >>> 7).toNat = value.toNat / 0x80 := by
        simp [UInt32.toNat_shiftRight, Nat.shiftRight_eq_div_pow]
      have byte : value.toUInt8 ||| 0x80 = UInt8.ofNat (value.toNat % 0x80 + 0x80) := by
        apply UInt8.toNat_inj.mp
        rw [or_high_bit, UInt32.toNat_toUInt8, UInt8.toNat_ofNat']
        omega
      rw [putUnsignedVarint, if_pos big, ih, shifted, byte, List.append_assoc]
      conv_rhs => rw [encodeUnsignedVarint, if_neg continues]
      rfl
  | case2 buf value small =>
      have ends : value.toNat < 0x80 := by simpa [UInt32.le_iff_toNat_le] using small
      have byte : value.toUInt8 = UInt8.ofNat value.toNat := by
        apply UInt8.toNat_inj.mp
        rw [UInt32.toNat_toUInt8, UInt8.toNat_ofNat']
      rw [putUnsignedVarint, if_neg small, byte]
      conv_rhs => rw [encodeUnsignedVarint, if_pos ends]

theorem encodeUnsignedVarint_spells (value : Nat) : Varint.Spells (encodeUnsignedVarint value) value := by
  induction value using encodeUnsignedVarint.induct with
  | case1 value small =>
      have byte : (UInt8.ofNat value).toNat = value := by
        rw [UInt8.toNat_ofNat']
        omega
      rw [encodeUnsignedVarint, if_pos small, Varint.Spells, Varint.decode_last (by rwa [byte]), byte]
  | case2 value big ih =>
      have byte : (UInt8.ofNat (value % 0x80 + 0x80)).toNat = value % 0x80 + 0x80 := by
        rw [UInt8.toNat_ofNat']
        omega
      rw [encodeUnsignedVarint, if_neg big, Varint.Spells, Varint.decode_more (by omega),
        show Varint.decode (encodeUnsignedVarint (value / 0x80)) = some (value / 0x80, []) from ih]
      simp only [Option.map_some, byte, Option.some.injEq, Prod.mk.injEq, and_true]
      omega

theorem length_encodeUnsignedVarint_le {value k : Nat} (bound : value < 128 ^ (k + 1)) :
    (encodeUnsignedVarint value).length ≤ k + 1 := by
  induction k generalizing value with
  | zero =>
      rw [encodeUnsignedVarint, if_pos (by simpa using bound)]
      simp
  | succ k ih =>
      rw [encodeUnsignedVarint]
      split
      · simp
      · rw [List.length_cons]
        apply Nat.succ_le_succ
        apply ih
        rw [pow_succ] at bound
        omega

/-- A reader of any further bytes gets the number back. The bytes are at most five, no other spelling of
the number is shorter, and no two numbers can be taken for each other. -/
theorem unsignedVarint_round_trip (buf : Frame) (value : UInt32) :
    ∃ bytes, putUnsignedVarint buf value = buf ++ bytes ∧ bytes.length ≤ 5 ∧
      (∀ rest, Varint.decode (bytes ++ rest) = some (value.toNat, rest)) ∧
      (∀ other, Varint.Spells other value.toNat → bytes.length ≤ other.length) ∧
      ∀ (next : UInt32) (rest after : Frame),
        putUnsignedVarint buf value ++ rest = putUnsignedVarint buf next ++ after →
          value = next ∧ rest = after := by
  have spells := encodeUnsignedVarint_spells value.toNat
  refine ⟨encodeUnsignedVarint value.toNat, putUnsignedVarint_eq buf value, ?_, fun rest => ?_, ?_, ?_⟩
  · exact length_encodeUnsignedVarint_le (value.toNat_lt.trans (by decide))
  · exact Varint.decode_append spells
  · intro other written
    have bound := written.lt
    cases size : other.length with
    | zero =>
        rw [List.length_eq_zero_iff.mp size] at written
        cases written
    | succ k => exact length_encodeUnsignedVarint_le (size ▸ bound)
  · intro next rest after same
    rw [putUnsignedVarint_eq, putUnsignedVarint_eq, List.append_assoc, List.append_assoc] at same
    have other := encodeUnsignedVarint_spells next.toNat
    obtain ⟨number, left⟩ := spells.unique other (List.append_cancel_left same)
    exact ⟨UInt32.toNat_inj.mp number, left⟩

end KafkaProxy
