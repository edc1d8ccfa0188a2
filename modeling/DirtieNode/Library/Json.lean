import Mathlib.Data.List.Infix
import Mathlib.Data.List.TakeWhile
import Mathlib.Tactic.Common

/-!
# JSON texts of strings

A reader for the compact JSON texts whose values are all strings: an object with such members, and
an array. A string is a sequence of characters, each in one of its spellings: itself, a short
escape, or one or two `\u` escapes of its code point. `Encodes value text` says that a text between
quotes stands for a value, and `string_encodes` that the reader agrees.
-/

namespace JsonText

/-- The double quote. -/
def quote : UInt8 := 34

/-- The backslash. -/
def backslash : UInt8 := 92

/-- The comma. -/
def comma : UInt8 := 44

/-- The colon. -/
def colon : UInt8 := 58

/-! ## Characters -/

/-- The value of a hexadecimal digit. -/
def hexDigit (b : UInt8) : Option Nat :=
  if 48 ≤ b ∧ b ≤ 57 then some (b.toNat - 48)
  else if 97 ≤ b ∧ b ≤ 102 then some (b.toNat - 87)
  else if 65 ≤ b ∧ b ≤ 70 then some (b.toNat - 55)
  else none

/-- The number of four hexadecimal digits, and what follows them. -/
def hex4 : List UInt8 → Option (Nat × List UInt8)
  | a :: b :: c :: d :: rest => do
      let a ← hexDigit a
      let b ← hexDigit b
      let c ← hexDigit c
      let d ← hexDigit d
      pure (((a * 16 + b) * 16 + c) * 16 + d, rest)
  | _ => none

/-- The byte that is meant by a backslash in front of this one. -/
def shortEscape (c : UInt8) : Option UInt8 :=
  if c = quote ∨ c = backslash ∨ c = 47 then some c
  else if c = 98 then some 8
  else if c = 102 then some 12
  else if c = 110 then some 10
  else if c = 114 then some 13
  else if c = 116 then some 9
  else none

/-- The bytes of a code point. -/
def utf8 (code : Nat) : List UInt8 :=
  String.utf8EncodeChar (Char.ofNat code)

/-- The character behind `\u`, which takes two escapes when it has surrogates. -/
def unicode (s : List UInt8) : Option (List UInt8 × List UInt8) :=
  (hex4 s).bind fun (high, s) ↦
    if 0xD800 ≤ high ∧ high < 0xDC00 then
      match s with
      | b :: c :: s =>
          if b = backslash ∧ c = 117 then
            (hex4 s).bind fun (low, s) ↦
              if 0xDC00 ≤ low ∧ low < 0xE000 then
                some (utf8 (0x10000 + (high - 0xD800) * 0x400 + (low - 0xDC00)), s)
              else none
          else none
      | _ => none
    else if 0xDC00 ≤ high ∧ high < 0xE000 then none
    else some (utf8 high, s)

/-- One character of a string, and what follows its spelling. A quote ends the string, and control
characters have to be escaped. -/
def piece : List UInt8 → Option (List UInt8 × List UInt8)
  | [] => none
  | b :: s =>
      if b = backslash then
        match s with
        | [] => none
        | c :: s => if c = 117 then unicode s else (shortEscape c).map fun value ↦ ([value], s)
      else if b = quote ∨ b < 32 then none
      else some ([b], s)

/-! ### Spellings -/

/-- The bytes of a `\u` escape behind its backslash. -/
def EscapeByte (b : UInt8) : Prop :=
  hexDigit b ≠ none ∨ b = backslash ∨ b = 117

/-- A byte of an escape is neither a terminator nor a quote. -/
theorem EscapeByte.ne {b : UInt8} (h : EscapeByte b) : b ≠ 0 ∧ b ≠ quote := by
  rcases h with h | rfl | rfl
  · exact ⟨fun hb ↦ h (by rw [hb]; rfl), fun hb ↦ h (by rw [hb]; rfl)⟩
  · decide
  · decide

/-- The four digits that are read. -/
theorem hex4_cases {s rest : List UInt8} {code : Nat} (h : hex4 s = some (code, rest)) :
    ∃ digits, s = digits ++ rest ∧ digits.length = 4 ∧ (∀ b ∈ digits, EscapeByte b) ∧
      ∀ more, hex4 (digits ++ more) = some (code, more) := by
  unfold hex4 at h
  split at h
  · rename_i a b c d tail
    simp only [Option.bind_eq_bind, Option.bind_eq_some_iff, Option.pure_def, Option.some.injEq,
      Prod.mk.injEq] at h
    obtain ⟨va, ha, vb, hb, vc, hc, vd, hd, rfl, rfl⟩ := h
    refine ⟨[a, b, c, d], rfl, rfl, ?_, fun more ↦ by simp [hex4, ha, hb, hc, hd]⟩
    simp [EscapeByte, ha, hb, hc, hd]
  · simp at h

/-- A `\u` escape is longer than its character, and has no quote. -/
theorem unicode_cases {s rest char : List UInt8} (h : unicode s = some (char, rest)) :
    ∃ digits, s = digits ++ rest ∧ char.length ≤ digits.length ∧ (∀ b ∈ digits, EscapeByte b) ∧
      ∀ more, unicode (digits ++ more) = some (char, more) := by
  have hsize : ∀ code, (utf8 code).length ≤ 4 := fun code ↦ by
    rw [utf8, String.length_utf8EncodeChar]
    exact Char.utf8Size_le_four _
  unfold unicode at h
  obtain ⟨⟨high, tail⟩, hhigh, hchar⟩ := Option.bind_eq_some_iff.mp h
  clear h
  obtain ⟨first, rfl, hfirst, hbytes, hread⟩ := hex4_cases hhigh
  dsimp only at hchar
  split at hchar
  · rename_i hsurrogate
    split at hchar
    · rename_i b c tail
      split at hchar
      · rename_i hescape
        obtain ⟨rfl, rfl⟩ := hescape
        obtain ⟨⟨low, tail⟩, hlow, hpair⟩ := Option.bind_eq_some_iff.mp hchar
        clear hchar
        obtain ⟨second, rfl, hsecond, hbytes', hread'⟩ := hex4_cases hlow
        dsimp only at hpair
        split at hpair
        · rename_i hlowRange
          simp only [Option.some.injEq, Prod.mk.injEq] at hpair
          obtain ⟨rfl, rfl⟩ := hpair
          refine ⟨first ++ backslash :: 117 :: second, by simp, ?_, ?_, fun more ↦ ?_⟩
          · exact (hsize _).trans (by simp; omega)
          · simp only [List.forall_mem_append, List.forall_mem_cons]
            exact ⟨hbytes, .inr (.inl rfl), .inr (.inr rfl), hbytes'⟩
          · simp [unicode, hread, hread', hsurrogate, hlowRange]
        · simp at hpair
      · simp at hchar
    · simp at hchar
  · rename_i hplain
    split at hchar
    · simp at hchar
    · rename_i hlowRange
      simp only [Option.some.injEq, Prod.mk.injEq] at hchar
      obtain ⟨rfl, rfl⟩ := hchar
      refine ⟨first, rfl, (hsize _).trans (by omega), hbytes, fun more ↦ ?_⟩
      simp [unicode, hread, hplain, hlowRange]

/-- The three kinds of spellings: a byte for itself, a quote behind a backslash, and longer ones
without a quote. -/
inductive Spelling : List UInt8 → List UInt8 → Prop
  | plain {b : UInt8} (hquote : b ≠ quote) (hescape : b ≠ backslash) (hcontrol : ¬ b < 32) :
      Spelling [b] [b]
  | quote : Spelling [backslash, JsonText.quote] [JsonText.quote]
  | escape {text char : List UInt8} (hshorter : char.length < text.length + 1)
      (hbytes : ∀ b ∈ text, b ≠ 0 ∧ b ≠ JsonText.quote) : Spelling (backslash :: text) char

/-- A character does not depend on what follows its spelling. -/
theorem piece_cases {s rest char : List UInt8} (h : piece s = some (char, rest)) :
    ∃ spelling, s = spelling ++ rest ∧ Spelling spelling char ∧
      ∀ more, piece (spelling ++ more) = some (char, more) := by
  unfold piece at h
  split at h
  · simp at h
  · rename_i b tail
    split at h
    · rename_i hescape
      subst hescape
      split at h
      · simp at h
      · rename_i c tail
        split at h
        · rename_i hu
          subst hu
          obtain ⟨digits, rfl, hlen, hbytes, hread⟩ := unicode_cases h
          refine ⟨backslash :: 117 :: digits, rfl, .escape ?_ ?_, fun more ↦ ?_⟩
          · simp only [List.length_cons]
            omega
          · simp only [List.forall_mem_cons]
            exact ⟨by decide, fun b hb ↦ (hbytes b hb).ne⟩
          · simp [piece, hread]
        · rename_i hu
          obtain ⟨value, hvalue, hsame⟩ := Option.map_eq_some_iff.mp h
          simp only [Prod.mk.injEq] at hsame
          obtain ⟨rfl, rfl⟩ := hsame
          refine ⟨[backslash, c], rfl, ?_, fun more ↦ by simp [piece, hu, hvalue]⟩
          by_cases hc : c = quote
          · subst hc
            obtain rfl : quote = value := Option.some.inj hvalue
            exact .quote
          · refine .escape (by simp) fun b hb ↦ ?_
            obtain rfl := List.mem_singleton.mp hb
            refine ⟨?_, hc⟩
            rintro rfl
            exact absurd hvalue (by simp [shortEscape, quote, backslash])
    · rename_i hescape
      split at h
      · simp at h
      · rename_i hplain
        simp only [Option.some.injEq, Prod.mk.injEq] at h
        obtain ⟨rfl, rfl⟩ := h
        rw [not_or] at hplain
        exact ⟨[b], rfl, .plain hplain.1 hescape hplain.2, fun more ↦ by
          simp [piece, hescape, hplain.1, hplain.2]⟩

/-! ## Strings -/

/-- The text, between quotes, stands for the value: it is a sequence of spellings of the value's
characters. -/
inductive Encodes : List UInt8 → List UInt8 → Prop
  | nil : Encodes [] []
  | cons {spelling char value text : List UInt8} (hfirst : piece spelling = some (char, []))
      (hrest : Encodes value text) : Encodes (char ++ value) (spelling ++ text)

/-- The rest of a string up to its closing quote, and what follows it. The first argument bounds
the number of characters. -/
def chars : Nat → List UInt8 → Option (List UInt8 × List UInt8)
  | 0, _ => none
  | _, [] => none
  | bound + 1, b :: s =>
      if b = quote then some ([], s)
      else
        (piece (b :: s)).bind fun (char, s) ↦
          (chars bound s).map fun (value, s) ↦ (char ++ value, s)

/-- A string with its quotes. -/
def string : List UInt8 → Option (List UInt8 × List UInt8)
  | [] => none
  | b :: s => if b = quote then chars s.length s else none

/-- A text with quotes around it. -/
def inQuotes (text : List UInt8) : List UInt8 :=
  quote :: (text ++ [quote])

/-- A byte that may stand for itself. -/
def Plain (b : UInt8) : Prop :=
  b ≠ quote ∧ b ≠ backslash ∧ ¬ b < 32

instance : DecidablePred Plain := fun b ↦
  inferInstanceAs (Decidable (b ≠ quote ∧ b ≠ backslash ∧ ¬ b < 32))

/-- Decided byte by byte of the text, not over all bytes. -/
instance (text : List UInt8) : Decidable (∀ b ∈ text, Plain b) :=
  List.decidableBAll Plain text

section Strings

variable {value text : List UInt8}

/-- A spelling starts with a byte that is not a quote. -/
theorem Spelling.cons {spelling char : List UInt8} (h : Spelling spelling char) :
    ∃ b tail, spelling = b :: tail ∧ b ≠ JsonText.quote := by
  cases h with
  | plain hquote => exact ⟨_, [], rfl, hquote⟩
  | quote => exact ⟨backslash, _, rfl, by decide⟩
  | escape => exact ⟨backslash, _, rfl, by decide⟩

/-- The spellings of a text, one after the other. -/
theorem Encodes.spelled {motive : List UInt8 → List UInt8 → Prop} (h : Encodes value text)
    (nil : motive [] [])
    (cons : ∀ {spelling char value text : List UInt8}, Spelling spelling char →
      Encodes value text → motive value text → motive (char ++ value) (spelling ++ text)) :
    motive value text := by
  induction h with
  | nil => exact nil
  | cons hfirst hrest ih =>
      obtain ⟨spelling, hspelling, hkind, _⟩ := piece_cases hfirst
      rw [List.append_nil] at hspelling
      subst hspelling
      exact cons hkind hrest ih

/-- The reader takes one spelling after the other. -/
theorem chars_spelling {spelling char : List UInt8} (h : piece spelling = some (char, []))
    (bound : Nat) (s : List UInt8) :
    chars (bound + 1) (spelling ++ s) =
      (chars bound s).map fun (value, s) ↦ (char ++ value, s) := by
  obtain ⟨found, hspelling, hkind, hread⟩ := piece_cases h
  rw [List.append_nil] at hspelling
  subst hspelling
  obtain ⟨b, tail, rfl, hb⟩ := hkind.cons
  have hpiece := hread s
  rw [List.cons_append] at hpiece ⊢
  rw [chars, if_neg hb, hpiece]
  rfl

/-- The reader gives the value back. -/
theorem chars_encodes (h : Encodes value text) {bound : Nat} (hbound : text.length < bound)
    (rest : List UInt8) : chars bound (text ++ quote :: rest) = some (value, rest) := by
  induction h generalizing bound with
  | nil =>
      obtain ⟨bound, rfl⟩ := Nat.exists_eq_add_of_lt hbound
      simp [chars]
  | @cons spelling char value text hfirst _ ih =>
      obtain ⟨bound, rfl⟩ := Nat.exists_eq_add_of_lt hbound
      have hnonempty : 0 < spelling.length := by
        cases spelling with
        | nil => simp [piece] at hfirst
        | cons => simp
      rw [List.length_append] at hbound ⊢
      rw [List.append_assoc, chars_spelling hfirst, ih (by omega)]
      rfl

/-- A quoted encoding is read as its value, whatever follows. -/
theorem string_encodes (h : Encodes value text) (rest : List UInt8) :
    string (inQuotes text ++ rest) = some (value, rest) := by
  have hbound : text.length < (text ++ quote :: rest).length := by simp
  simpa [string, inQuotes] using chars_encodes h hbound rest

/-- A text of plain bytes stands for itself. -/
theorem encodes_plain (h : ∀ b ∈ text, Plain b) : Encodes text text := by
  induction text with
  | nil => exact .nil
  | cons b text ih =>
      simp only [List.forall_mem_cons] at h
      obtain ⟨⟨hquote, hescape, hcontrol⟩, htext⟩ := h
      have hpiece : piece [b] = some ([b], []) := by simp [piece, hquote, hescape, hcontrol]
      exact .cons hpiece (ih htext)

/-- The text between quotes has no terminator. -/
theorem Encodes.nul_free (h : Encodes value text) : 0 ∉ text := by
  refine h.spelled (motive := fun _ text ↦ 0 ∉ text) (by simp) fun hkind _ ih ↦ ?_
  rw [List.mem_append, not_or]
  refine ⟨fun hmem ↦ ?_, ih⟩
  cases hkind with
  | plain _ _ hcontrol =>
      obtain rfl := List.mem_singleton.mp hmem
      exact hcontrol (by decide)
  | quote => exact absurd hmem (by decide)
  | escape _ hbytes =>
      rcases List.mem_cons.mp hmem with hzero | hzero
      · exact absurd hzero (by decide)
      · exact (hbytes 0 hzero).1 rfl

/-- A text without a backslash stands for itself, and has no quote. -/
theorem Encodes.eq_of_plain (h : Encodes value text) (hplain : backslash ∉ text) :
    text = value ∧ quote ∉ text := by
  revert hplain
  refine h.spelled (motive := fun value text ↦ backslash ∉ text → text = value ∧ quote ∉ text)
    (by simp) fun hkind _ ih hplain ↦ ?_
  rw [List.mem_append, not_or] at hplain
  obtain ⟨rfl, hquotes⟩ := ih hplain.2
  cases hkind with
  | plain hquote =>
      simp only [List.singleton_append, List.mem_cons, not_or, true_and]
      exact ⟨Ne.symm hquote, hquotes⟩
  | quote => exact absurd List.mem_cons_self hplain.1
  | escape => exact absurd List.mem_cons_self hplain.1

/-- A quote of the text stands for a quote of the value. -/
theorem Encodes.quote_mem (h : Encodes value text) (hmem : quote ∈ text) : quote ∈ value := by
  revert hmem
  refine h.spelled (motive := fun value text ↦ quote ∈ text → quote ∈ value)
    (by simp) fun hkind _ ih hmem ↦ ?_
  rw [List.mem_append] at hmem ⊢
  refine hmem.elim (fun hspelling ↦ .inl ?_) fun htext ↦ .inr (ih htext)
  cases hkind with
  | plain => exact hspelling
  | quote => exact List.mem_singleton_self _
  | escape _ hbytes =>
      rcases List.mem_cons.mp hspelling with hfirst | hrest
      · exact absurd hfirst (by decide)
      · exact absurd rfl (hbytes _ hrest).2

/-- An escape is longer than what it stands for. -/
theorem Encodes.length_le (h : Encodes value text) :
    value.length ≤ text.length ∧ (backslash ∈ text → value.length < text.length) := by
  refine h.spelled (motive := fun value text ↦
    value.length ≤ text.length ∧ (backslash ∈ text → value.length < text.length))
    (by simp) fun hkind _ ih ↦ ?_
  simp only [List.length_append, List.mem_append]
  cases hkind with
  | plain _ hescape =>
      refine ⟨by simpa using ih.1, fun hmem ↦ ?_⟩
      have hrest := ih.2 (hmem.resolve_left (by simpa using Ne.symm hescape))
      simpa using hrest
  | quote => exact ⟨by simp; omega, fun _ ↦ by simp; omega⟩
  | escape hshorter =>
      simp only [List.length_cons]
      exact ⟨by omega, fun _ ↦ by omega⟩

/-- The bytes up to the first quote are the value only if nothing is escaped. -/
theorem Encodes.takeWhile_eq_iff (h : Encodes value text) :
    text.takeWhile (· != quote) = value ↔ backslash ∉ text := by
  constructor
  · intro hvalue hescape
    by_cases hquote : quote ∈ text
    · have hmem := h.quote_mem hquote
      rw [← hvalue] at hmem
      simpa using List.mem_takeWhile_imp hmem
    · have hwhole : text.takeWhile (· != quote) = text := by
        rw [List.takeWhile_eq_self_iff]
        intro b hb
        simpa using fun heq : b = quote ↦ hquote (heq ▸ hb)
      have hlen := h.length_le.2 hescape
      rw [← hvalue, hwhole] at hlen
      exact absurd hlen (Nat.lt_irrefl _)
  · intro hplain
    obtain ⟨rfl, hquote⟩ := h.eq_of_plain hplain
    rw [List.takeWhile_eq_self_iff]
    intro b hb
    simpa using fun heq : b = quote ↦ hquote (heq ▸ hb)

/-- A pair that ends in a quote is not found in bytes without a quote. -/
theorem pair_behind {front : List UInt8} (hfront : quote ∉ front) {c b : UInt8}
    (h : [c, quote] <:+: b :: (front ++ text)) : ∃ last, [c, quote] <:+: last :: text := by
  induction front generalizing b with
  | nil => exact ⟨b, h⟩
  | cons next front ih =>
      simp only [List.mem_cons, not_or] at hfront
      rcases List.infix_cons_iff.mp h with hstart | hinfix
      · simp only [List.cons_append, List.cons_prefix_cons] at hstart
        exact absurd hstart.2.1 hfront.1
      · exact ih hfront.2 hinfix

/-- In front of a quote of the text there is a backslash. -/
theorem Encodes.quote_escaped (h : Encodes value text) {c : UInt8} (hc : c ≠ backslash)
    (b : UInt8) : ¬ [c, quote] <:+: b :: text := by
  revert b
  refine h.spelled (motive := fun _ text ↦ ∀ b, ¬ [c, quote] <:+: b :: text)
    (fun b ↦ by simp [List.infix_cons_iff]) fun hkind _ ih b hpair ↦ ?_
  cases hkind with
  | plain hquote =>
      obtain ⟨last, hlast⟩ := pair_behind (by simpa using Ne.symm hquote) hpair
      exact ih last hlast
  | quote =>
      rcases List.infix_cons_iff.mp hpair with hstart | hpair
      · simp only [List.cons_append, List.cons_prefix_cons] at hstart
        exact absurd hstart.2.1 (by decide)
      · rcases List.infix_cons_iff.mp hpair with hstart | hpair
        · exact hc (List.cons_prefix_cons.mp hstart).1
        · exact ih _ hpair
  | @escape spelled char _ hbytes =>
      have hnone : JsonText.quote ∉ backslash :: spelled := by
        simp only [List.mem_cons, not_or]
        exact ⟨by decide, fun hmem ↦ (hbytes _ hmem).2 rfl⟩
      obtain ⟨last, hlast⟩ := pair_behind hnone hpair
      exact ih last hlast

end Strings

/-! ## Objects and arrays -/

/-- A member of an object. -/
def member (s : List UInt8) : Option ((List UInt8 × List UInt8) × List UInt8) :=
  (string s).bind fun (name, s) ↦
    match s with
    | [] => none
    | b :: s =>
        if b = colon then (string s).map fun (value, s) ↦ ((name, value), s) else none

section Items

variable {α β : Type*}

/-- Items with commas between them and a closing byte behind the last one. The first argument bounds
their number. -/
def items (item : List UInt8 → Option (α × List UInt8)) (close : UInt8) :
    Nat → List UInt8 → Option (List α × List UInt8)
  | 0, _ => none
  | bound + 1, s =>
      (item s).bind fun (x, s) ↦
        match s with
        | [] => none
        | b :: s =>
            if b = close then some ([x], s)
            else if b = comma then (items item close bound s).map fun (xs, s) ↦ (x :: xs, s)
            else none

/-- A whole text of items between two brackets. -/
def enclosed (item : List UInt8 → Option (α × List UInt8)) (opening close : UInt8) :
    List UInt8 → Option (List α)
  | [] => none
  | b :: s =>
      if b ≠ opening then none
      else if s = [close] then some []
      else
        match items item close s.length s with
        | some (xs, []) => some xs
        | _ => none

/-- The texts of the items with commas between them. -/
def separated (texts : List (List UInt8)) : List UInt8 :=
  [comma].intercalate texts

@[simp] theorem separated_nil : separated [] = [] := rfl

@[simp] theorem separated_singleton (text : List UInt8) : separated [text] = text := by
  simp [separated]

@[simp] theorem separated_cons (text next : List UInt8) (texts : List (List UInt8)) :
    separated (text :: next :: texts) = text ++ comma :: separated (next :: texts) := by
  simp [separated, List.intercalate]

/-- Behind the first text, each one comes with its comma. -/
theorem separated_eq_flatten (text : List UInt8) (texts : List (List UInt8)) :
    separated (text :: texts) = text ++ (texts.map (comma :: ·)).flatten := by
  induction texts generalizing text with
  | nil => simp
  | cons next texts ih =>
      rw [separated_cons, ih, List.map_cons, List.flatten_cons, List.cons_append]

/-- A byte of the list is a comma or one of a text. -/
theorem mem_separated {texts : List (List UInt8)} {b : UInt8} (h : b ∈ separated texts) :
    b = comma ∨ ∃ text ∈ texts, b ∈ text := by
  cases texts with
  | nil => exact absurd h List.not_mem_nil
  | cons text texts =>
      rw [separated_eq_flatten, List.mem_append, List.mem_flatten] at h
      rcases h with hfirst | ⟨_, hmem, hb⟩
      · exact .inr ⟨text, List.mem_cons_self, hfirst⟩
      · obtain ⟨next, hnext, rfl⟩ := List.mem_map.mp hmem
        rcases List.mem_cons.mp hb with hcomma | hrest
        · exact .inl hcomma
        · exact .inr ⟨next, List.mem_cons_of_mem _ hnext, hrest⟩

/-- The list has at least a byte for each text but one. -/
theorem length_le_separated (texts : List (List UInt8)) :
    texts.length ≤ (separated texts).length + 1 := by
  induction texts with
  | nil => simp
  | cons text texts ih =>
      cases texts with
      | nil => simp
      | cons next texts =>
          simp only [separated_cons, List.length_append, List.length_cons] at ih ⊢
          omega

variable {item : List UInt8 → Option (α × List UInt8)} {close : UInt8} {read : β → α}
  {write : β → List UInt8}

/-- Items that are read one by one are read together. -/
theorem items_separated (hclose : comma ≠ close) {xs : List β} (hne : xs ≠ [])
    (hitem : ∀ x ∈ xs, ∀ rest, item (write x ++ rest) = some (read x, rest)) {bound : Nat}
    (hbound : xs.length ≤ bound) (rest : List UInt8) :
    items item close bound (separated (xs.map write) ++ close :: rest) =
      some (xs.map read, rest) := by
  induction xs generalizing bound with
  | nil => exact absurd rfl hne
  | cons x xs ih =>
      have hfirst := hitem x List.mem_cons_self
      cases bound with
      | zero => simp at hbound
      | succ bound =>
          cases xs with
          | nil => simp [items, hfirst]
          | cons next xs =>
              have hrest := ih (by simp) (fun y hy ↦ hitem y (List.mem_cons_of_mem _ hy))
                (Nat.le_of_succ_le_succ hbound)
              rw [List.map_cons] at hrest
              rw [List.map_cons, List.map_cons, separated_cons, List.append_assoc,
                List.cons_append, items, hfirst]
              simp [hclose, hrest]

/-- Items without a closing byte are not read. -/
theorem items_unclosed {xs : List β}
    (hitem : ∀ x ∈ xs, ∀ rest, item (write x ++ rest) = some (read x, rest)) (hne : xs ≠ [])
    (bound : Nat) (hclose : comma ≠ close) :
    items item close bound (separated (xs.map write)) = none := by
  induction xs generalizing bound with
  | nil => exact absurd rfl hne
  | cons x xs ih =>
      have hfirst := hitem x List.mem_cons_self
      cases bound with
      | zero => rfl
      | succ bound =>
          cases xs with
          | nil =>
              have hlast := hfirst []
              rw [List.append_nil] at hlast
              simp [items, hlast]
          | cons next xs =>
              have hrest := ih (fun y hy ↦ hitem y (List.mem_cons_of_mem _ hy)) (by simp) bound
              rw [List.map_cons] at hrest
              rw [List.map_cons, List.map_cons, separated_cons, items, hfirst]
              simp [hclose, hrest]

/-- A whole text is read back. -/
theorem enclosed_separated (opening : UInt8) (hclose : comma ≠ close) {xs : List β}
    (hitem : ∀ x ∈ xs, ∀ rest, item (write x ++ rest) = some (read x, rest))
    (hwrite : ∀ x ∈ xs, write x ≠ []) :
    enclosed item opening close (opening :: (separated (xs.map write) ++ [close])) =
      some (xs.map read) := by
  cases xs with
  | nil => simp [enclosed]
  | cons x xs =>
      have hnonempty : separated ((x :: xs).map write) ≠ [] := by
        have hfirst := hwrite x List.mem_cons_self
        cases xs <;> simp [hfirst]
      have hmany : (x :: xs).length ≤ (separated ((x :: xs).map write) ++ [close]).length := by
        have hle := length_le_separated ((x :: xs).map write)
        rw [List.length_map] at hle
        rwa [List.length_append, List.length_singleton]
      have hitems := items_separated hclose (List.cons_ne_nil x xs) hitem hmany []
      rw [enclosed, if_neg (by simp), if_neg (by simpa using hnonempty), hitems]

end Items

/-- A compact object whose values are strings. -/
def object : List UInt8 → Option (List (List UInt8 × List UInt8)) :=
  enclosed member 123 125

/-- A compact array of strings. -/
def array : List UInt8 → Option (List (List UInt8)) :=
  enclosed string 91 93

/-- The text of a member. -/
def memberText (name text : List UInt8) : List UInt8 :=
  inQuotes name ++ colon :: inQuotes text

/-- The text of an object from the texts of its members. -/
def objectText (members : List (List UInt8)) : List UInt8 :=
  123 :: (separated members ++ [125])

/-- The text of an array from the texts of its elements. -/
def arrayText (elements : List (List UInt8)) : List UInt8 :=
  91 :: (separated elements ++ [93])

/-- A written member is read as its name and value, whatever follows. -/
theorem member_memberText {name nameText value text : List UInt8} (hname : Encodes name nameText)
    (h : Encodes value text) (rest : List UInt8) :
    member (memberText nameText text ++ rest) = some ((name, value), rest) := by
  rw [memberText, List.append_assoc, member, string_encodes hname]
  simp [string_encodes h]

/-- An object is read back when each text stands for its name or its value. -/
theorem object_objectText {members : List (List UInt8 × List UInt8 × List UInt8)}
    (h : ∀ m ∈ members, (∀ b ∈ m.1, Plain b) ∧ Encodes m.2.1 m.2.2) :
    object (objectText (members.map fun m ↦ memberText m.1 m.2.2)) =
      some (members.map fun m ↦ (m.1, m.2.1)) := by
  refine enclosed_separated 123 (by decide) (fun m hm rest ↦ ?_) fun m _ ↦ by
    simp [memberText, inQuotes]
  obtain ⟨hname, hvalue⟩ := h m hm
  exact member_memberText (encodes_plain hname) hvalue rest

/-- An object without its last brace is none. -/
theorem object_unclosed {members : List (List UInt8 × List UInt8 × List UInt8)} (hne : members ≠ [])
    (h : ∀ m ∈ members, (∀ b ∈ m.1, Plain b) ∧ Encodes m.2.1 m.2.2) :
    object (objectText (members.map fun m ↦ memberText m.1 m.2.2)).dropLast = none := by
  have hitem : ∀ m ∈ members, ∀ rest,
      member (memberText m.1 m.2.2 ++ rest) = some ((m.1, m.2.1), rest) := fun m hm rest ↦
    member_memberText (encodes_plain (h m hm).1) (h m hm).2 rest
  have hclose : comma ≠ 125 := by decide
  rw [objectText, ← List.cons_append, List.dropLast_concat, object, enclosed, if_neg (by simp)]
  have hquote : separated (members.map fun m ↦ memberText m.1 m.2.2) ≠ [125] := by
    cases members with
    | nil => exact absurd rfl hne
    | cons m members => cases members <;> simp [memberText, inQuotes, quote]
  rw [if_neg hquote, items_unclosed hitem hne _ hclose]

/-- An array of plain texts is read back. -/
theorem array_arrayText {texts : List (List UInt8)} (h : ∀ text ∈ texts, ∀ b ∈ text, Plain b) :
    array (arrayText (texts.map inQuotes)) = some texts := by
  have hitem : ∀ text ∈ texts, ∀ rest, string (inQuotes text ++ rest) = some (id text, rest) :=
    fun text htext rest ↦ string_encodes (encodes_plain (h text htext)) rest
  have hclose : comma ≠ 93 := by decide
  have hread := enclosed_separated 91 hclose hitem fun text _ ↦ List.cons_ne_nil _ _
  rwa [List.map_id] at hread

/-- The spelling of a character with surrogates, and of a quote. -/
example : string (inQuotes [92, 117, 100, 56, 51, 100, 92, 117, 100, 101, 48, 48, 92, 34]) =
    some ([240, 159, 152, 128, 34], []) := by decide

/-! ## Searching for a member -/

/-- What is in front of the value of a member. -/
def memberQuery (name : List UInt8) : List UInt8 :=
  inQuotes name ++ [colon, quote]

/-- A member is the query for its name, its text and a quote. -/
theorem memberText_eq (name text : List UInt8) :
    memberText name text = memberQuery name ++ (text ++ [quote]) := by
  simp [memberText, memberQuery, inQuotes]

section Search

variable {name other rest tail value text : List UInt8}

/-- Up to its first quote, a list has one reading. -/
theorem eq_of_prefix_quote (hname : quote ∉ name) (hother : quote ∉ other)
    (h : name ++ quote :: rest <+: other ++ quote :: tail) : name = other := by
  have hfront : ∀ {front : List UInt8}, quote ∉ front → ∀ back : List UInt8,
      (front ++ quote :: back).takeWhile (· != quote) = front := by
    intro front hquote back
    rw [List.takeWhile_append_of_pos, List.takeWhile_cons_of_neg (by simp), List.append_nil]
    intro b hb
    simpa using fun heq : b = quote ↦ hquote (heq ▸ hb)
  obtain ⟨more, hmore⟩ := h
  rw [List.append_assoc, List.cons_append] at hmore
  calc name = (name ++ quote :: (rest ++ more)).takeWhile (· != quote) := (hfront hname _).symm
    _ = (other ++ quote :: tail).takeWhile (· != quote) := by rw [hmore]
    _ = other := hfront hother _

/-- A list that starts with a quote is not found in bytes without one. -/
theorem infix_behind (hfront : quote ∉ other) (h : quote :: rest <:+: other ++ tail) :
    quote :: rest <:+: tail := by
  induction other with
  | nil => exact h
  | cons b other ih =>
      simp only [List.mem_cons, not_or] at hfront
      rcases List.infix_cons_iff.mp h with hstart | hinfix
      · exact absurd (List.cons_prefix_cons.mp hstart).1 hfront.1
      · exact ih hfront.2 hinfix

/-- A name in front of a quote and a colon is not found in the text of a string: the quotes in it
have backslashes in front of them, and no colon follows its closing quote. -/
theorem not_infix_text (h : Encodes value text) {c : UInt8} (hc : c ≠ backslash) (b : UInt8) :
    ¬ [c, quote, colon] <:+: b :: (text ++ [quote]) := by
  intro hinfix
  rw [← List.cons_append] at hinfix
  rcases List.infix_concat_iff.mp hinfix with hend | hinside
  · have hlast := hend.getLast (by simp)
    simp [quote, colon] at hlast
  · have hpair : [c, quote] <:+: [c, quote, colon] := ⟨[], [colon], rfl⟩
    exact h.quote_escaped hc b (hpair.trans hinside)

/-- One member is not found in another one. -/
theorem not_infix_memberText (h : Encodes value text) (hne : name ≠ [])
    (hname : ∀ b ∈ name, Plain b) (hcolon : colon ∉ name) (hother : quote ∉ other)
    (hdiff : name ≠ other) : ¬ memberQuery name <:+: memberText other text := by
  have hquote : quote ∉ name := fun hmem ↦ (hname _ hmem).1 rfl
  intro hinfix
  have hquery : memberQuery name = quote :: (name ++ quote :: [colon, quote]) := by
    simp [memberQuery, inQuotes]
  have htext : memberText other text =
      quote :: (other ++ quote :: colon :: quote :: (text ++ [quote])) := by
    simp [memberText, inQuotes]
  rw [hquery, htext] at hinfix
  -- the first quote is in front of the other name
  rcases List.infix_cons_iff.mp hinfix with hstart | hinfix
  · exact hdiff (eq_of_prefix_quote hquote hother (List.cons_prefix_cons.mp hstart).2)
  -- the first quote is behind the other name
  rcases List.infix_cons_iff.mp (infix_behind hother hinfix) with hstart | hinfix
  · have hbehind : name ++ quote :: [colon, quote] <+: [colon] ++ quote :: (text ++ [quote]) :=
      (List.cons_prefix_cons.mp hstart).2
    have hone : name = [colon] := eq_of_prefix_quote hquote (by decide) hbehind
    exact hcolon (hone ▸ List.mem_singleton_self _)
  -- all of the query is behind the colon
  have hvalue : quote :: (name ++ quote :: [colon, quote]) <:+: quote :: (text ++ [quote]) := by
    have hcolons : quote ∉ [colon] := by decide
    exact infix_behind hcolons hinfix
  obtain ⟨init, c, rfl⟩ : ∃ init c, name = init ++ [c] :=
    ⟨name.dropLast, name.getLast hne, (List.dropLast_append_getLast hne).symm⟩
  have hend : [c, quote, colon] <:+: quote :: (init ++ [c] ++ quote :: [colon, quote]) :=
    ⟨quote :: init, [quote], by simp⟩
  exact not_infix_text h (hname c (by simp)).2.1 quote (hend.trans hvalue)

end Search

end JsonText
