import DirtieNode.Library.Memory

/-!
# Numbers in strings

The conversions of `printf` and `strtoull` that the program uses.
-/

namespace CString

/-- The characters of a list as bytes. -/
def ascii (chars : List Char) : List UInt8 :=
  chars.map fun c ↦ c.toNat.toUInt8

/-- `%d` and `%llu` of a natural number. -/
def decimal (n : Nat) : List UInt8 :=
  ascii (Nat.toDigits 10 n)

/-- Zeros in front of a number, up to a field width. -/
def zeroPad (width : Nat) (digits : List UInt8) : List UInt8 :=
  List.replicate (width - digits.length) 48 ++ digits

/-- `%02x` of a byte. -/
def hexByte (b : UInt8) : List UInt8 :=
  zeroPad 2 (ascii (Nat.toDigits 16 b.toNat))

/-- The value of a byte as a decimal digit. -/
def digit? (b : UInt8) : Option Nat :=
  if 48 ≤ b ∧ b ≤ 57 then some (b.toNat - 48) else none

/-- The number that a string of digits starts with, added to what has been read. -/
def digitsValue : List UInt8 → Nat → Nat
  | [], value => value
  | b :: rest, value =>
      match digit? b with
      | some d => digitsValue rest (10 * value + d)
      | none => value

/-- `strtoull` in base 10 on a string without a sign or spaces in front; a number that is too large
becomes `ULLONG_MAX`. -/
def strtoull (s : List UInt8) : Nat :=
  min (digitsValue s 0) (2 ^ 64 - 1)

/-- A padded number has at least the field width. -/
theorem zeroPad_length (width : Nat) (digits : List UInt8) :
    (zeroPad width digits).length = max width digits.length := by
  simp only [zeroPad, List.length_append, List.length_replicate]
  omega

/-- The byte of a digit. -/
theorem toUInt8_of_isDigit {c : Char} (h : c.isDigit = true) :
    48 ≤ c.toNat.toUInt8.toNat ∧ c.toNat.toUInt8.toNat ≤ 57 ∧
      c.toNat.toUInt8.toNat = c.toNat := by
  have hrange : 48 ≤ c.toNat ∧ c.toNat ≤ 57 := by
    simp only [Char.isDigit, ge_iff_le, Bool.and_eq_true, decide_eq_true_eq,
      UInt32.le_iff_toNat_le] at h
    exact h
  have hbyte : c.toNat.toUInt8.toNat = c.toNat := by
    rw [Nat.toUInt8, UInt8.toNat_ofNat']
    omega
  rw [hbyte]
  exact ⟨hrange.1, hrange.2, rfl⟩

/-- The bytes of a decimal number. -/
theorem digit_of_mem_decimal {n : Nat} {b : UInt8} (h : b ∈ decimal n) :
    48 ≤ b.toNat ∧ b.toNat ≤ 57 := by
  obtain ⟨c, hc, rfl⟩ := List.mem_map.mp h
  have hdigit := toUInt8_of_isDigit (Nat.isDigit_of_mem_toDigits (by decide) (by decide) hc)
  exact ⟨hdigit.1, hdigit.2.1⟩

/-- The digits of a number are no terminators. -/
theorem zero_notMem_decimal (n : Nat) : 0 ∉ decimal n := by
  intro hmem
  have hdigit := (digit_of_mem_decimal hmem).1
  exact absurd hdigit (by decide)

/-- A padded number has no terminator. -/
theorem zero_notMem_zeroPad (width n : Nat) : 0 ∉ zeroPad width (decimal n) := by
  intro hmem
  rcases List.mem_append.mp hmem with hpad | hdigits
  · exact absurd (List.eq_of_mem_replicate hpad) (by decide)
  · exact zero_notMem_decimal n hdigits

/-! ## Reading back what has been printed -/

/-- A digit is read as its value. -/
theorem digit?_digitChar {c : Char} (h : c.isDigit = true) :
    digit? c.toNat.toUInt8 = some (c.toNat - '0'.toNat) := by
  obtain ⟨hlow, hhigh, hbyte⟩ := toUInt8_of_isDigit h
  have hrange : 48 ≤ c.toNat.toUInt8 ∧ c.toNat.toUInt8 ≤ 57 := by
    rw [UInt8.le_iff_toNat_le, UInt8.le_iff_toNat_le]
    exact ⟨hlow, hhigh⟩
  rw [digit?, if_pos hrange, hbyte]
  rfl

/-- Digits are read as the number they stand for, and what follows them after that. -/
theorem digitsValue_ascii {cs : List Char} (h : ∀ c ∈ cs, c.isDigit = true) (rest : List UInt8)
    (value : Nat) :
    digitsValue (ascii cs ++ rest) value = digitsValue rest (Nat.ofDigitChars 10 cs value) := by
  induction cs generalizing value with
  | nil => rfl
  | cons c cs ih =>
      have hc : digit? c.toNat.toUInt8 = some (c.toNat - '0'.toNat) :=
        digit?_digitChar (h c List.mem_cons_self)
      show digitsValue (c.toNat.toUInt8 :: (ascii cs ++ rest)) value = _
      rw [digitsValue, hc, Nat.ofDigitChars_cons]
      exact ih (fun d hd ↦ h d (List.mem_cons_of_mem c hd)) _

/-- Zeros in front of a number are characters too. -/
theorem zeroPad_ascii (width : Nat) (cs : List Char) :
    zeroPad width (ascii cs) = ascii (List.replicate (width - cs.length) '0' ++ cs) := by
  simp only [zeroPad, ascii, List.map_append, List.map_replicate, List.length_map]
  rfl

/-- `strtoull` reads back the number that `%0*llu` has printed, and stops at the byte behind it. -/
theorem strtoull_zeroPad {n : Nat} (hn : n < 2 ^ 64) (width : Nat) {b : UInt8}
    (hb : digit? b = none) (rest : List UInt8) :
    strtoull (zeroPad width (decimal n) ++ b :: rest) = n := by
  have hdigits : ∀ c ∈ List.replicate (width - (Nat.toDigits 10 n).length) '0' ++ Nat.toDigits 10 n,
      c.isDigit = true := by
    intro c hc
    rcases List.mem_append.mp hc with hpad | hnum
    · rw [List.eq_of_mem_replicate hpad]
      rfl
    · exact Nat.isDigit_of_mem_toDigits (by omega) (by omega) hnum
  have hvalue : digitsValue (zeroPad width (decimal n) ++ b :: rest) 0 = n := by
    rw [decimal, zeroPad_ascii, digitsValue_ascii hdigits, Nat.ofDigitChars_append,
      Nat.ofDigitChars_replicate_zero, Nat.mul_zero, Nat.ofDigitChars_ten_toDigits, digitsValue, hb]
  rw [strtoull, hvalue]
  omega

/-- A number below a power of ten fills its field exactly. -/
theorem zeroPad_decimal_length {width n : Nat} (hwidth : 0 < width) (h : n < 10 ^ width) :
    (zeroPad width (decimal n)).length = width := by
  have hdigits : (decimal n).length ≤ width := by
    rw [decimal, ascii, List.length_map]
    exact (Nat.length_toDigits_le_iff (by omega) hwidth).mpr h
  rw [zeroPad_length]
  omega

end CString
