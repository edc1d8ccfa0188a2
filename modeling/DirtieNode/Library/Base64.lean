import Mathlib.Tactic.Common

/-!
# Decoding base64

The decoder of the standard alphabet with padding. Each group of four characters has the bits of up
to three bytes; `decode_three`, `decode_two` and `decode_one` say what an encoder has to write for
them to be read back.
-/

namespace Base64

/-- The padding character. -/
def pad : UInt8 := 61

/-- The six bits of a character. -/
def value (c : UInt8) : Option Nat :=
  if 65 ≤ c ∧ c ≤ 90 then some (c.toNat - 65)
  else if 97 ≤ c ∧ c ≤ 122 then some (c.toNat - 71)
  else if 48 ≤ c ∧ c ≤ 57 then some (c.toNat + 4)
  else if c = 43 then some 62
  else if c = 47 then some 63
  else none

/-- The byte of a number below 256. -/
def byte (n : Nat) : UInt8 :=
  UInt8.ofNat n

/-- One byte in two characters. The bits behind it are zero. -/
def one (a b : UInt8) : Option (List UInt8) :=
  (value a).bind fun a ↦ (value b).bind fun b ↦
    let n := a * 64 + b
    if n % 16 = 0 then some [byte (n / 16)] else none

/-- Two bytes in three characters. -/
def two (a b c : UInt8) : Option (List UInt8) :=
  (value a).bind fun a ↦ (value b).bind fun b ↦ (value c).bind fun c ↦
    let n := (a * 64 + b) * 64 + c
    if n % 4 = 0 then some [byte (n / 1024), byte (n / 4 % 256)] else none

/-- Three bytes in four characters. -/
def three (a b c d : UInt8) : Option (List UInt8) :=
  (value a).bind fun a ↦ (value b).bind fun b ↦ (value c).bind fun c ↦ (value d).map fun d ↦
    let n := ((a * 64 + b) * 64 + c) * 64 + d
    [byte (n / 65536), byte (n / 256 % 256), byte (n % 256)]

/-- The bytes of a text. There is padding in the last group only. -/
def decode : List UInt8 → Option (List UInt8)
  | [] => some []
  | a :: b :: c :: d :: rest =>
      if d = pad then
        if rest ≠ [] then none
        else if c = pad then one a b
        else two a b c
      else
        (three a b c d).bind fun bytes ↦ (decode rest).map (bytes ++ ·)
  | _ => none

/-- A byte is the byte of its number. -/
theorem byte_toNat (x : UInt8) : byte x.toNat = x := by
  simp [byte]

/-- The padding is none of the alphabet's characters. -/
theorem ne_pad_of_value {c : UInt8} {n : Nat} (h : value c = some n) : c ≠ pad := by
  have hpad : value pad = none := rfl
  rintro rfl
  simp [hpad] at h

section Groups

variable {a b c d x y z : UInt8}

/-- The two characters of a last byte are read back. -/
theorem decode_one (ha : value a = some (x.toNat / 4)) (hb : value b = some (x.toNat % 4 * 16)) :
    decode [a, b, pad, pad] = some [x] := by
  have hbits : x.toNat / 4 * 64 + x.toNat % 4 * 16 = x.toNat * 16 := by omega
  have hzero : x.toNat * 16 % 16 = 0 := by omega
  have hfirst : x.toNat * 16 / 16 = x.toNat := by omega
  rw [decode, if_pos rfl, if_neg (by simp), if_pos rfl, one, ha, hb]
  simp only [Option.bind_some, hbits, hzero, hfirst, if_true, byte_toNat]

/-- The three characters of two last bytes are read back. -/
theorem decode_two (ha : value a = some (x.toNat / 4))
    (hb : value b = some (x.toNat % 4 * 16 + y.toNat / 16))
    (hc : value c = some (y.toNat % 16 * 4)) : decode [a, b, c, pad] = some [x, y] := by
  have hy := y.toNat_lt
  have hbits : (x.toNat / 4 * 64 + (x.toNat % 4 * 16 + y.toNat / 16)) * 64 + y.toNat % 16 * 4 =
      x.toNat * 1024 + y.toNat * 4 := by omega
  have hzero : (x.toNat * 1024 + y.toNat * 4) % 4 = 0 := by omega
  have hfirst : (x.toNat * 1024 + y.toNat * 4) / 1024 = x.toNat := by omega
  have hsecond : (x.toNat * 1024 + y.toNat * 4) / 4 % 256 = y.toNat := by omega
  rw [decode, if_pos rfl, if_neg (by simp), if_neg (ne_pad_of_value hc), two, ha, hb, hc]
  simp only [Option.bind_some, hbits, hzero, hfirst, hsecond, if_true, byte_toNat]

/-- A full group is read back in front of any other. -/
theorem decode_three (ha : value a = some (x.toNat / 4))
    (hb : value b = some (x.toNat % 4 * 16 + y.toNat / 16))
    (hc : value c = some (y.toNat % 16 * 4 + z.toNat / 64))
    (hd : value d = some (z.toNat % 64)) (rest : List UInt8) :
    decode (a :: b :: c :: d :: rest) = (decode rest).map ([x, y, z] ++ ·) := by
  have hy := y.toNat_lt
  have hz := z.toNat_lt
  have hbits : ((x.toNat / 4 * 64 + (x.toNat % 4 * 16 + y.toNat / 16)) * 64 +
      (y.toNat % 16 * 4 + z.toNat / 64)) * 64 + z.toNat % 64 =
        x.toNat * 65536 + y.toNat * 256 + z.toNat := by omega
  have hfirst : (x.toNat * 65536 + y.toNat * 256 + z.toNat) / 65536 = x.toNat := by omega
  have hsecond : (x.toNat * 65536 + y.toNat * 256 + z.toNat) / 256 % 256 = y.toNat := by omega
  have hthird : (x.toNat * 65536 + y.toNat * 256 + z.toNat) % 256 = z.toNat := by omega
  rw [decode, if_neg (ne_pad_of_value hd), three, ha, hb, hc, hd]
  simp only [Option.bind_some, Option.map_some, hbits, hfirst, hsecond, hthird, byte_toNat]

end Groups

end Base64
