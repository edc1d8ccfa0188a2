import Mathlib.Data.List.Basic
import Mathlib.Tactic.Common

/-!
# Fields of a code, a length and data

A field is a code byte, a byte with the length of its data, and the data. `exists_field` reads a
field from the front of a text that is long enough for it.
-/

namespace Tlv

/-- A field whose length fits into its byte. -/
structure Field where
  code : UInt8
  data : List UInt8
  fits : data.length < 256

/-- The bytes of a field. -/
def Field.bytes (field : Field) : List UInt8 :=
  field.code :: field.data.length.toUInt8 :: field.data

/-- Fields one after another. -/
def encode (fields : List Field) : List UInt8 :=
  fields.flatMap Field.bytes

/-- Fields are encoded one after the other. -/
@[simp] theorem encode_cons (field : Field) (fields : List Field) :
    encode (field :: fields) = field.bytes ++ encode fields := rfl

/-- A field takes two bytes more than its data. -/
theorem Field.bytes_length (field : Field) : field.bytes.length = 2 + field.data.length := by
  rw [Field.bytes, List.length_cons, List.length_cons]
  omega

/-- The lengths of encoded fields add up. -/
theorem encode_cons_length (field : Field) (fields : List Field) :
    (encode (field :: fields)).length = field.bytes.length + (encode fields).length := by
  rw [encode_cons, List.length_append]

/-- The length of the data is read back from its byte. -/
theorem Field.length_byte (field : Field) :
    field.data.length.toUInt8.toNat = field.data.length := by
  rw [Nat.toUInt8, UInt8.toNat_ofNat']
  exact Nat.mod_eq_of_lt field.fits

/-- A code and a length with enough bytes behind them are a field. -/
theorem exists_field (code len : UInt8) (rest : List UInt8) (h : len.toNat ≤ rest.length) :
    ∃ field : Field, field.code = code ∧ field.data.length = len.toNat ∧
      code :: len :: rest = field.bytes ++ rest.drop len.toNat := by
  have hlen : (rest.take len.toNat).length = len.toNat := by
    rw [List.length_take]
    exact Nat.min_eq_left h
  refine ⟨⟨code, rest.take len.toNat, by rw [hlen]; exact len.toNat_lt⟩, rfl, hlen, ?_⟩
  show code :: len :: rest =
    code :: (rest.take len.toNat).length.toUInt8 :: (rest.take len.toNat ++ rest.drop len.toNat)
  rw [hlen, List.take_append_drop, Nat.toUInt8, UInt8.ofNat_toNat]

/-- The data of the first field with a code. -/
def lookup (fields : List Field) (code : UInt8) : Option (List UInt8) :=
  (fields.find? fun field ↦ field.code == code).map Field.data

/-- A code that is looked up with success has a first field. -/
theorem exists_of_lookup {fields : List Field} {code : UInt8} {data : List UInt8}
    (h : lookup fields code = some data) :
    ∃ front field back, fields = front ++ field :: back ∧ (∀ other ∈ front, other.code ≠ code) ∧
      field.code = code ∧ field.data = data := by
  obtain ⟨field, hfind, hdata⟩ := Option.map_eq_some_iff.mp h
  obtain ⟨hcode, front, back, hfields, hfront⟩ := List.find?_eq_some_iff_append.mp hfind
  refine ⟨front, field, back, hfields, fun other hmem hsame ↦ ?_, beq_iff_eq.mp hcode, hdata⟩
  have hnot := hfront other hmem
  rw [hsame, beq_self_eq_true] at hnot
  exact absurd hnot (by simp)

/-- A field that is not found has another code. -/
theorem lookup_eq_none {fields : List Field} {code : UInt8} (h : lookup fields code = none) :
    ∀ field ∈ fields, field.code ≠ code := by
  intro field hmem hsame
  have hnone := List.find?_eq_none.mp (Option.map_eq_none_iff.mp h) field hmem
  exact hnone (beq_iff_eq.mpr hsame)

end Tlv
