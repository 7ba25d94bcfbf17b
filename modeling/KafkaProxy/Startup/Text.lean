import Mathlib.Data.List.DropRight
import KafkaProxy.Startup.Basic

/-!
# Text of the configuration

What trimming, splitting at the last separator and reading a numeral do to text that was put together
from its parts.
-/

namespace KafkaProxy.Startup

/-! ## Numerals -/

def withoutSign (text : List Char) : List Char :=
  match text with
  | '+' :: rest => rest
  | _ => text

/-- `from_str` of an unsigned integer: a plus sign may stand in front of the digits. -/
def parseUnsigned (bits : Nat) (text : List Char) : Option Nat :=
  let digits := withoutSign text
  if digits.isEmpty || !digits.all Char.isDigit then none
  else
    let value := Nat.ofDigitChars 10 digits 0
    if value < 2 ^ bits then some value else none

theorem parseU16_eq (text : List Char) : parseU16 text = (parseUnsigned 16 text).map UInt16.ofNat := by
  unfold parseUnsigned
  simp only [Nat.ofDigitChars_eq_foldl, apply_ite (Option.map UInt16.ofNat), Option.map_none,
    Option.map_some]
  rfl

theorem parseUnsigned_eq_some {bits n : Nat} {text : List Char} :
    parseUnsigned bits text = some n ↔ withoutSign text ≠ [] ∧ (∀ c ∈ withoutSign text, c.isDigit) ∧
      n = Nat.ofDigitChars 10 (withoutSign text) 0 ∧ n < 2 ^ bits := by
  have valid : ((withoutSign text).isEmpty || !(withoutSign text).all Char.isDigit) = false ↔
      withoutSign text ≠ [] ∧ ∀ c ∈ withoutSign text, c.isDigit := by simp
  unfold parseUnsigned
  dsimp only
  rw [← and_assoc, ← valid]
  split_ifs with invalid fits
  · simp [invalid]
  · rw [Option.some_inj]
    constructor
    · rintro rfl
      exact ⟨Bool.eq_false_iff.mpr invalid, rfl, fits⟩
    · exact fun read => read.2.1.symm
  · constructor
    · nofun
    · rintro ⟨_, rfl, lower⟩
      exact absurd lower fits

theorem withoutSign_digits {digits : List Char} (all : ∀ c ∈ digits, c.isDigit) :
    withoutSign digits = digits := by
  unfold withoutSign
  split
  · exact absurd (all '+' List.mem_cons_self) (by decide)
  · rfl

theorem parseUnsigned_toDigits {bits n : Nat} (fits : n < 2 ^ bits) :
    parseUnsigned bits (Nat.toDigits 10 n) = some n := by
  have digits : ∀ c ∈ Nat.toDigits 10 n, c.isDigit :=
    fun c member => Nat.isDigit_of_mem_toDigits (by decide) (by decide) member
  rw [parseUnsigned_eq_some, withoutSign_digits digits]
  exact ⟨Nat.toDigits_ne_nil, digits, Nat.ofDigitChars_ten_toDigits.symm, fits⟩

theorem parseUnsigned_getLast {bits n : Nat} {text : List Char}
    (read : parseUnsigned bits text = some n) : ∃ front c, text = front ++ [c] ∧ c.isDigit := by
  obtain ⟨nonempty, digits, _, _⟩ := parseUnsigned_eq_some.mp read
  have last := digits _ (List.getLast_mem nonempty)
  have whole := List.dropLast_append_getLast nonempty
  generalize (withoutSign text).getLast nonempty = c at last whole
  unfold withoutSign at whole
  split at whole
  · exact ⟨'+' :: _, c, congrArg _ whole.symm, last⟩
  · exact ⟨_, c, whole.symm, last⟩

theorem parseU16_toDigits (p : UInt16) : parseU16 (Nat.toDigits 10 p.toNat) = some p := by
  rw [parseU16_eq, parseUnsigned_toDigits p.toNat_lt, Option.map_some, UInt16.ofNat_toNat]

/-! ## The last separator -/

section
variable {sep : Char} {text before after : List Char}

theorem rsplitOnce_eq_none : rsplitOnce sep text = none ↔ sep ∉ text := by
  induction text with
  | nil => simp [rsplitOnce]
  | cons c rest ih =>
      rw [List.mem_cons, not_or, ← ih]
      cases found : rsplitOnce sep rest with
      | none => simp [rsplitOnce, found, eq_comm]
      | some pair => simp [rsplitOnce, found]

theorem rsplitOnce_append (absent : sep ∉ after) :
    rsplitOnce sep (before ++ sep :: after) = some (before, after) := by
  induction before with
  | nil => simp [rsplitOnce, rsplitOnce_eq_none.mpr absent]
  | cons c before ih => simp [rsplitOnce, ih]

theorem eq_of_rsplitOnce (split : rsplitOnce sep text = some (before, after)) :
    text = before ++ sep :: after := by
  induction text generalizing before with
  | nil => cases split
  | cons c rest ih =>
      cases found : rsplitOnce sep rest with
      | none =>
          rw [rsplitOnce, found] at split
          dsimp only at split
          split_ifs at split with same
          cases split
          rw [same, List.nil_append]
      | some pair =>
          obtain ⟨front, back⟩ := pair
          rw [rsplitOnce, found, Option.some_inj, Prod.mk.injEq] at split
          obtain ⟨rfl, rfl⟩ := split
          rw [ih found, List.cons_append]

theorem notMem_of_rsplitOnce (split : rsplitOnce sep text = some (before, after)) : sep ∉ after := by
  induction text generalizing before with
  | nil => cases split
  | cons c rest ih =>
      cases found : rsplitOnce sep rest with
      | none =>
          rw [rsplitOnce, found] at split
          dsimp only at split
          split_ifs at split
          cases split
          exact rsplitOnce_eq_none.mp found
      | some pair =>
          obtain ⟨front, back⟩ := pair
          rw [rsplitOnce, found, Option.some_inj, Prod.mk.injEq] at split
          obtain ⟨rfl, rfl⟩ := split
          exact ih found

theorem rsplitOnce_eq_some :
    rsplitOnce sep text = some (before, after) ↔ text = before ++ sep :: after ∧ sep ∉ after := by
  constructor
  · exact fun split => ⟨eq_of_rsplitOnce split, notMem_of_rsplitOnce split⟩
  · rintro ⟨rfl, absent⟩
    exact rsplitOnce_append absent

end

/-! ## Blanks -/

theorem isWhiteSpace_of_isDigit {c : Char} (digit : c.isDigit) : isWhiteSpace c = false := by
  obtain ⟨low, high⟩ : 48 ≤ c.toNat ∧ c.toNat ≤ 57 := by
    simpa [Char.isDigit, UInt32.le_iff_toNat_le] using digit
  rw [← Bool.not_eq_true, isWhiteSpace]
  simp only [Bool.or_eq_true, Bool.and_eq_true, decide_eq_true_eq, List.mem_cons,
    List.not_mem_nil, or_false]
  omega

theorem trim_eq_rdropWhile (text : List Char) :
    trim text = (text.dropWhile isWhiteSpace).rdropWhile isWhiteSpace :=
  rfl

theorem trim_eq_self {text : List Char} (first : ∀ c ∈ text.head?, isWhiteSpace c = false)
    (last : ∀ c ∈ text.getLast?, isWhiteSpace c = false) : trim text = text := by
  have left : text.dropWhile isWhiteSpace = text := by
    rw [List.dropWhile_eq_self_iff]
    intro positive
    simpa using first _ (List.head?_eq_getElem?.trans (List.getElem?_eq_getElem positive))
  rw [trim_eq_rdropWhile, left, List.rdropWhile_eq_self_iff]
  intro nonempty
  simpa using last _ (List.getLast?_eq_some_getLast nonempty)

theorem head?_trim {text : List Char} {c : Char} (first : c ∈ (trim text).head?) :
    isWhiteSpace c = false := by
  obtain ⟨back, whole⟩ := List.rdropWhile_prefix isWhiteSpace (text.dropWhile isWhiteSpace)
  have head : (text.dropWhile isWhiteSpace).head? = some c := by
    rw [← whole, List.head?_append, ← trim_eq_rdropWhile, first, Option.some_or]
  have spec := List.head?_dropWhile_not isWhiteSpace text
  rwa [head] at spec

theorem trim_ne_nil {c : Char} {rest : List Char} (first : isWhiteSpace c = false) :
    trim (c :: rest) ≠ [] := by
  rw [trim_eq_rdropWhile, List.dropWhile_cons_of_neg (by simp [first]), Ne, List.rdropWhile_eq_nil_iff]
  intro blank
  simpa [first] using blank c List.mem_cons_self

end KafkaProxy.Startup
