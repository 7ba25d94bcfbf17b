import KafkaProxy.Api.Basic
import Mathlib.Data.List.Forall2
import Mathlib.Data.Option.Basic

/-!
# Bytes as text

Bytes that are UTF-8 are shown as the text they encode, other bytes in hexadecimal after `0x`. So bytes
that spell such a text look like the bytes that it stands for.
-/

namespace KafkaProxy.Api

def IsText (b : List UInt8) : Prop := ByteArray.IsValidUTF8 ⟨b.toArray⟩

def utf8 (s : String) : List UInt8 := s.toByteArray.data.toList

def hexText (b : List UInt8) : String := "0x" ++ String.ofList (b.flatMap hexByte)

/-- `b` is the text by which `a` is shown. -/
def Masks (a b : List UInt8) : Prop := ¬ IsText a ∧ b = utf8 (hexText a)

def Alike (a b : List UInt8) : Prop := a = b ∨ Masks a b ∨ Masks b a

variable {a b : List UInt8}

theorem hexByte_inj {x y : UInt8} (same : hexByte x = hexByte y) : x = y := by
  have digits : ∀ i j : Fin 16, Nat.digitChar i = Nat.digitChar j → i = j := by decide
  have high (z : UInt8) : z.toNat / 16 < 16 := by
    have bound := z.toNat_lt
    omega
  have low (z : UInt8) : z.toNat % 16 < 16 := Nat.mod_lt _ (by decide)
  simp only [hexByte, List.cons.injEq, and_true] at same
  have first := Fin.mk.inj (digits ⟨_, high x⟩ ⟨_, high y⟩ same.1)
  have second := Fin.mk.inj (digits ⟨_, low x⟩ ⟨_, low y⟩ same.2)
  apply UInt8.toNat_inj.mp
  omega

theorem flatMap_hexByte_inj (same : a.flatMap hexByte = b.flatMap hexByte) : a = b := by
  induction a generalizing b with
  | nil =>
      cases b with
      | nil => rfl
      | cons y b => cases same
  | cons x a ih =>
      cases b with
      | nil => cases same
      | cons y b =>
          have apart := List.append_inj same rfl
          rw [hexByte_inj apart.1, ih apart.2]

theorem hexText_inj (same : hexText a = hexText b) : a = b := by
  have lists := congrArg String.toList same
  simp only [hexText, String.toList_append, String.toList_ofList, List.append_cancel_left_eq] at lists
  exact flatMap_hexByte_inj lists

theorem bytesToText_utf8 (s : String) : bytesToText (utf8 s) = s := by
  have valid : ByteArray.IsValidUTF8 ⟨(utf8 s).toArray⟩ := s.isValidUTF8
  rw [bytesToText, String.fromUTF8?, dif_pos valid]
  rfl

theorem utf8_bytesToText (text : IsText b) : utf8 (bytesToText b) = b := by
  have valid : ByteArray.IsValidUTF8 ⟨b.toArray⟩ := text
  rw [bytesToText, String.fromUTF8?, dif_pos valid]
  rfl

theorem bytesToText_hex (other : ¬ IsText b) : bytesToText b = hexText b := by
  have invalid : ¬ ByteArray.IsValidUTF8 ⟨b.toArray⟩ := other
  rw [bytesToText, String.fromUTF8?, dif_neg invalid]
  rfl

theorem Masks.same (masks : Masks a b) : bytesToText a = bytesToText b := by
  obtain ⟨other, rfl⟩ := masks
  rw [bytesToText_hex other, bytesToText_utf8]

theorem bytesToText_eq_iff : bytesToText a = bytesToText b ↔ Alike a b := by
  constructor
  · intro same
    by_cases first : IsText a
    · by_cases second : IsText b
      · left
        rw [← utf8_bytesToText first, same, utf8_bytesToText second]
      · refine .inr (.inr ⟨second, ?_⟩)
        rw [← utf8_bytesToText first, same, bytesToText_hex second]
    · by_cases second : IsText b
      · refine .inr (.inl ⟨first, ?_⟩)
        rw [← utf8_bytesToText second, ← same, bytesToText_hex first]
      · left
        rw [bytesToText_hex first, bytesToText_hex second] at same
        exact hexText_inj same
  · rintro (rfl | masks | masks)
    · rfl
    · exact masks.same
    · exact masks.same.symm

theorem headers_eq_iff (hs gs : List RecordHeader) :
    (hs.map fun h => (h.key, bytesToText h.value)) = (gs.map fun h => (h.key, bytesToText h.value)) ↔
      List.Forall₂ (fun h g => h.key = g.key ∧ Alike h.value g.value) hs gs := by
  induction hs generalizing gs with
  | nil =>
      cases gs with
      | nil => simp
      | cons g gs => simp
  | cons h hs ih =>
      cases gs with
      | nil => simp
      | cons g gs =>
          rw [List.map_cons, List.map_cons, List.cons.injEq, ih, List.forall₂_cons, Prod.mk.injEq,
            bytesToText_eq_iff]

/-- The listing loses nothing of a record but the difference between bytes and the text that shows them. -/
theorem recordToJson_eq_iff (r s : ConsumerRecord) : recordToJson r = recordToJson s ↔
    r.partition = s.partition ∧ r.offset = s.offset ∧ r.timestamp = s.timestamp ∧
      Option.Rel Alike r.key s.key ∧ Alike r.value s.value ∧
      List.Forall₂ (fun h g => h.key = g.key ∧ Alike h.value g.value) r.headers s.headers := by
  have keys : r.key.map bytesToText = s.key.map bytesToText ↔ Option.Rel Alike r.key s.key := by
    cases r.key with
    | none =>
        cases s.key with
        | none => exact iff_of_true rfl .none
        | some k => exact iff_of_false (by simp) (by rintro ⟨⟩)
    | some j =>
        cases s.key with
        | none => exact iff_of_false (by simp) (by rintro ⟨⟩)
        | some k =>
            rw [Option.map_some, Option.map_some, Option.some.injEq, bytesToText_eq_iff]
            constructor
            · exact .some
            · rintro ⟨alike⟩
              exact alike
  rw [recordToJson, recordToJson, Message.mk.injEq, keys, bytesToText_eq_iff, headers_eq_iff]

end KafkaProxy.Api
