import Mathlib.Data.Nat.ModEq
import Mathlib.Tactic.Ring

namespace KafkaProxy.Library.BigEndian

def encode : Nat → Nat → List UInt8
  | 0, _ => []
  | width + 1, n => UInt8.ofNat (n / 256 ^ width) :: encode width n

def decode : List UInt8 → Nat
  | [] => 0
  | byte :: rest => byte.toNat * 256 ^ rest.length + decode rest

@[simp] theorem encode_length (width n : Nat) : (encode width n).length = width := by
  induction width with
  | zero => rfl
  | succ width ih => simp [encode, ih]

theorem decode_encode (width n : Nat) : decode (encode width n) = n % 256 ^ width := by
  induction width with
  | zero => simp [encode, decode, Nat.mod_one]
  | succ width ih =>
      have digit : (UInt8.ofNat (n / 256 ^ width)).toNat = n / 256 ^ width % 256 := by simp
      rw [encode, decode, digit, ih, encode_length, pow_succ, Nat.mod_mul]
      ring

theorem decode_encode_of_lt {width n : Nat} (fits : n < 256 ^ width) :
    decode (encode width n) = n := by
  rw [decode_encode, Nat.mod_eq_of_lt fits]

theorem decode_lt (bytes : List UInt8) : decode bytes < 256 ^ bytes.length := by
  induction bytes with
  | nil => simp [decode]
  | cons byte rest ih =>
      have digit := byte.toNat_lt
      calc decode (byte :: rest) < byte.toNat * 256 ^ rest.length + 256 ^ rest.length :=
            Nat.add_lt_add_left ih _
        _ = (byte.toNat + 1) * 256 ^ rest.length := by ring
        _ ≤ 256 * 256 ^ rest.length := Nat.mul_le_mul_right _ digit
        _ = 256 ^ (byte :: rest).length := by rw [List.length_cons, pow_succ, mul_comm]

theorem encode_add (width high low : Nat) : encode width (high * 256 ^ width + low) = encode width low := by
  induction width generalizing high with
  | zero => rfl
  | succ width ih =>
      have positive : 0 < 256 ^ width := Nat.pow_pos (by decide)
      have whole : high * 256 ^ (width + 1) = high * 256 * 256 ^ width := by ring
      have digit : (high * 256 * 256 ^ width + low) / 256 ^ width = low / 256 ^ width + 256 * high := by
        rw [mul_comm, Nat.mul_add_div positive]
        ring
      rw [encode, encode, whole, ih, digit]
      simp

theorem encode_decode (bytes : List UInt8) : encode bytes.length (decode bytes) = bytes := by
  induction bytes with
  | nil => rfl
  | cons byte rest ih =>
      have fits := decode_lt rest
      have digit : (byte.toNat * 256 ^ rest.length + decode rest) / 256 ^ rest.length = byte.toNat := by
        rw [mul_comm, Nat.mul_add_div (Nat.pow_pos (by decide)), Nat.div_eq_of_lt fits, Nat.add_zero]
      rw [List.length_cons, decode, encode, digit, encode_add, ih]
      simp

end KafkaProxy.Library.BigEndian
