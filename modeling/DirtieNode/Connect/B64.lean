import DirtieNode.DtErr
import DirtieNode.Library.Base64
import DirtieNode.Library.Format

/-!
# Base64

`b64_encode` as a function of the bytes. Its allocations only decide whether it returns at all.
`decode_b64Encode` says that its result is decoded to the bytes again.
-/

namespace DirtieNode.Connect

open CString

/-- `b64_table`. -/
def b64Table : List UInt8 :=
  lit "ABCDEFGHIJKLMNOPQRSTUVWXYZabcdefghijklmnopqrstuvwxyz0123456789+/"

/-- The character for six bits. -/
def b64Char (index : UInt8) : UInt8 :=
  b64Table.getD index.toNat 0

/-- The main loop takes three bytes at a time, and the remainder is filled with zeros for encoding
and with `=` in the result. -/
def b64Encode : List UInt8 → List UInt8
  | a :: b :: c :: rest =>
      b64Char ((a &&& 0xfc) >>> 2) :: b64Char (((a &&& 0x03) <<< 4) + ((b &&& 0xf0) >>> 4)) ::
        b64Char (((b &&& 0x0f) <<< 2) + ((c &&& 0xc0) >>> 6)) :: b64Char (c &&& 0x3f) ::
          b64Encode rest
  | [a, b] =>
      [b64Char ((a &&& 0xfc) >>> 2), b64Char (((a &&& 0x03) <<< 4) + ((b &&& 0xf0) >>> 4)),
        b64Char ((b &&& 0x0f) <<< 2), 61]
  | [a] => [b64Char ((a &&& 0xfc) >>> 2), b64Char ((a &&& 0x03) <<< 4), 61, 61]
  | [] => []

/-- Every started group of three bytes takes four characters. -/
theorem b64Encode_length (src : List UInt8) :
    (b64Encode src).length = (src.length + 2) / 3 * 4 := by
  fun_induction b64Encode src with
  | case1 a b c rest ih =>
      simp only [List.length_cons, ih]
      omega
  | case2 | case3 | case4 => simp

/-! ## Decoding -/

/-- The table is the standard alphabet. -/
theorem b64Char_value {index : UInt8} {n : Nat} (h : index.toNat = n) (hn : n < 64) :
    Base64.value (b64Char index) = some n := by
  subst h
  exact forall_byte
    (p := fun index ↦ index.toNat < 64 → Base64.value (b64Char index) = some index.toNat)
    (by decide +kernel) index hn

section Bits

variable (a b c : UInt8)

/-- The first six bits of a group. -/
theorem highSix : ((a &&& 0xfc) >>> 2).toNat = a.toNat / 4 :=
  forall_byte (p := fun a ↦ ((a &&& 0xfc) >>> 2).toNat = a.toNat / 4) (by decide +kernel) a

/-- The last two bits of the first byte, moved up. -/
theorem lowTwo : ((a &&& 0x03) <<< 4).toNat = a.toNat % 4 * 16 :=
  forall_byte (p := fun a ↦ ((a &&& 0x03) <<< 4).toNat = a.toNat % 4 * 16) (by decide +kernel) a

/-- The first four bits of the second byte. -/
theorem highFour : ((b &&& 0xf0) >>> 4).toNat = b.toNat / 16 :=
  forall_byte (p := fun b ↦ ((b &&& 0xf0) >>> 4).toNat = b.toNat / 16) (by decide +kernel) b

/-- The last four bits of the second byte, moved up. -/
theorem lowFour : ((b &&& 0x0f) <<< 2).toNat = b.toNat % 16 * 4 :=
  forall_byte (p := fun b ↦ ((b &&& 0x0f) <<< 2).toNat = b.toNat % 16 * 4) (by decide +kernel) b

/-- The first two bits of the third byte. -/
theorem highTwo : ((c &&& 0xc0) >>> 6).toNat = c.toNat / 64 :=
  forall_byte (p := fun c ↦ ((c &&& 0xc0) >>> 6).toNat = c.toNat / 64) (by decide +kernel) c

/-- The last six bits of a group. -/
theorem lowSix : (c &&& 0x3f).toNat = c.toNat % 64 :=
  forall_byte (p := fun c ↦ (c &&& 0x3f).toNat = c.toNat % 64) (by decide +kernel) c

/-- The second six bits of a group come from two bytes, and do not overlap. -/
theorem secondSix :
    (((a &&& 0x03) <<< 4) + ((b &&& 0xf0) >>> 4)).toNat = a.toNat % 4 * 16 + b.toNat / 16 := by
  have hb := b.toNat_lt
  rw [UInt8.toNat_add, lowTwo, highFour]
  omega

/-- The third six bits of a group come from two bytes, and do not overlap. -/
theorem thirdSix :
    (((b &&& 0x0f) <<< 2) + ((c &&& 0xc0) >>> 6)).toNat = b.toNat % 16 * 4 + c.toNat / 64 := by
  have hc := c.toNat_lt
  rw [UInt8.toNat_add, lowFour, highTwo]
  omega

end Bits

/-- Every list of bytes is decoded from its encoding. -/
theorem decode_b64Encode (src : List UInt8) : Base64.decode (b64Encode src) = some src := by
  fun_induction b64Encode src with
  | case1 a b c rest ih =>
      have ha := a.toNat_lt
      have hb := b.toNat_lt
      have hc := c.toNat_lt
      rw [Base64.decode_three (b64Char_value (highSix a) (by omega))
        (b64Char_value (secondSix a b) (by omega)) (b64Char_value (thirdSix b c) (by omega))
        (b64Char_value (lowSix c) (by omega)), ih]
      rfl
  | case2 a b =>
      have ha := a.toNat_lt
      have hb := b.toNat_lt
      exact Base64.decode_two (b64Char_value (highSix a) (by omega))
        (b64Char_value (secondSix a b) (by omega)) (b64Char_value (lowFour b) (by omega))
  | case3 a =>
      have ha := a.toNat_lt
      exact Base64.decode_one (b64Char_value (highSix a) (by omega))
        (b64Char_value (lowTwo a) (by omega))
  | case4 => rfl

/-- The characters of an encoding. -/
theorem mem_b64Encode {src : List UInt8} {c : UInt8} (h : c ∈ b64Encode src) :
    (∃ n, Base64.value c = some n) ∨ c = Base64.pad := by
  fun_induction b64Encode src with
  | case1 x y z rest ih =>
      have hx := x.toNat_lt
      have hy := y.toNat_lt
      have hz := z.toNat_lt
      simp only [List.mem_cons] at h
      rcases h with rfl | rfl | rfl | rfl | hrest
      · exact .inl ⟨_, b64Char_value (highSix x) (by omega)⟩
      · exact .inl ⟨_, b64Char_value (secondSix x y) (by omega)⟩
      · exact .inl ⟨_, b64Char_value (thirdSix y z) (by omega)⟩
      · exact .inl ⟨_, b64Char_value (lowSix z) (by omega)⟩
      · exact ih hrest
  | case2 x y =>
      have hx := x.toNat_lt
      have hy := y.toNat_lt
      simp only [List.mem_cons, List.not_mem_nil, or_false] at h
      rcases h with rfl | rfl | rfl | rfl
      · exact .inl ⟨_, b64Char_value (highSix x) (by omega)⟩
      · exact .inl ⟨_, b64Char_value (secondSix x y) (by omega)⟩
      · exact .inl ⟨_, b64Char_value (lowFour y) (by omega)⟩
      · exact .inr rfl
  | case3 x =>
      have hx := x.toNat_lt
      simp only [List.mem_cons, List.not_mem_nil, or_false] at h
      rcases h with rfl | rfl | rfl | rfl
      · exact .inl ⟨_, b64Char_value (highSix x) (by omega)⟩
      · exact .inl ⟨_, b64Char_value (lowTwo x) (by omega)⟩
      · exact .inr rfl
      · exact .inr rfl
  | case4 => exact absurd h List.not_mem_nil

end DirtieNode.Connect
