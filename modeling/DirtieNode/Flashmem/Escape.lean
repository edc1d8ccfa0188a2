import DirtieNode.Flashmem.Read

/-!
# Escapes in memory

`esc_chars` walks over the value twice, to count the bytes and to write them, and `read` removes the
escapes again where they are. Each store of the second pass is one byte of `escChars`, so the stores
together are one copy of the escaped value and its terminator over the whole block.
-/

namespace DirtieNode.Flashmem

open CString

/-- The first loop of `esc_chars` from its two counters on, and the argument of `malloc`. -/
def escCount : List UInt8 → Nat → Nat → Nat
  | [], valLen, specialChCt => sizeT (valLen + specialChCt + 1)
  | c :: rest, valLen, specialChCt =>
      escCount rest (valLen + 1) (if isSpecial c then specialChCt + 1 else specialChCt)

/-- The second loop of `esc_chars`, with its stores through `head`, and the terminator after it. -/
def escWrite : List UInt8 → List UInt8 → Nat → Option (List UInt8)
  | [], res, head => memcpy res head [0]
  | c :: rest, res, head =>
      if isSpecial c then do
        let res ← memcpy res head [backslash]
        let res ← memcpy res (head + 1) [c]
        escWrite rest res (head + 2)
      else do
        let res ← memcpy res head [c]
        escWrite rest res (head + 1)

/-- The number of backslashes at the end of a text. -/
def trailingBackslashes (front : List UInt8) : Nat :=
  (front.reverse.takeWhile (· == backslash)).length

/-- A value survives `esc_chars` and the loop of `read`. Both passes of `esc_chars` are about the
same number of bytes, and all of the block is written, whatever `malloc` has left in it. The loop of
`read` ends with the value in the place of the escaped one, and each separator of the escaped value
has an odd number of backslashes in front of it. -/
structure EscapesExactly (val : CStr) : Prop where
  sized : escCount val.bytes 0 0 = (escChars val.bytes).length + 1
  written : ∀ block, block.length = escCount val.bytes 0 0 →
    escWrite val.bytes block 0 = some (escChars val.bytes ++ [0])
  unescaped : ∀ pre post extra, ∃ rest,
    unescapeLoop (extra + (escChars val.bytes).length + 1)
        (pre ++ escChars val.bytes ++ 0 :: post) pre.length
        (pre ++ escChars val.bytes).length = some (pre ++ val.bytes ++ 0 :: rest ++ post)
  guarded : ∀ front b back, escChars val.bytes = front ++ b :: back → b = comma ∨ b = equals →
    trailingBackslashes front % 2 = 1

/-! ## The passes of `esc_chars` -/

/-- The loop counts each byte, and each special one twice. -/
theorem escCount_eq (val : List UInt8) (valLen specialChCt : Nat) :
    escCount val valLen specialChCt =
      sizeT (valLen + val.length + (specialChCt + val.countP isSpecial) + 1) := by
  induction val generalizing valLen specialChCt with
  | nil => rfl
  | cons c rest ih =>
      rw [escCount, ih, List.length_cons, List.countP_cons]
      congr 1
      split <;> push_cast <;> omega

/-- The count does not wrap. -/
theorem escCount_escChars (val : CStr) :
    escCount val.bytes 0 0 = (escChars val.bytes).length + 1 := by
  have hfits := val.fits
  have hcount : val.bytes.countP isSpecial ≤ val.bytes.length := List.countP_le_length
  rw [escCount_eq, escChars_length, sizeT]
  omega

/-- The stores together are one copy. -/
theorem escWrite_eq_memcpy (val res : List UInt8) (head : Nat) :
    escWrite val res head = memcpy res head (escChars val ++ [0]) := by
  induction val generalizing res head with
  | nil => rfl
  | cons c rest ih =>
      unfold escWrite escChars
      split
      · show ((memcpy res head [backslash]).bind fun res ↦
          (memcpy res (head + 1) [c]).bind fun res ↦ escWrite rest res (head + 2)) = _
        have hrest : ∀ mem, ((memcpy mem (head + 1) [c]).bind fun mem ↦
            escWrite rest mem (head + 2)) =
              memcpy mem (head + 1) (c :: escChars rest ++ [0]) := by
          intro mem
          simp only [ih]
          exact memcpy_memcpy mem [c] (escChars rest ++ [0]) (head + 1)
        simp only [hrest]
        exact memcpy_memcpy res [backslash] (c :: escChars rest ++ [0]) head
      · show ((memcpy res head [c]).bind fun res ↦ escWrite rest res (head + 1)) = _
        simp only [ih]
        exact memcpy_memcpy res [c] (escChars rest ++ [0]) head

/-- The block that was counted takes the escaped value and its terminator. -/
theorem escWrite_block (val : CStr) {block : List UInt8}
    (h : block.length = escCount val.bytes 0 0) :
    escWrite val.bytes block 0 = some (escChars val.bytes ++ [0]) := by
  have hsize : block.length = (escChars val.bytes ++ [0]).length := by
    rw [h, escCount_escChars, List.length_append, List.length_singleton]
  have hcopy := memcpy_append [] block [] (escChars val.bytes ++ [0]) hsize.symm
  rw [List.nil_append, List.nil_append, List.append_nil, List.append_nil] at hcopy
  rw [escWrite_eq_memcpy]
  exact hcopy

/-! ## The loop of `read` -/

/-- The bytes that the escapes took are terminators. -/
theorem unescapeLoop_escChars (val : CStr) (pre post : List UInt8) (extra : Nat) :
    ∃ rest, unescapeLoop (extra + (escChars val.bytes).length + 1)
        (pre ++ escChars val.bytes ++ 0 :: post) pre.length
        (pre ++ escChars val.bytes).length = some (pre ++ val.bytes ++ 0 :: rest ++ post) := by
  have hloop := unescapeLoop_eq pre post (escChars_nul_free val.nul_free) extra
  rw [unescape_escChars, escChars_length] at hloop
  refine ⟨List.replicate (val.bytes.countP isSpecial) 0, ?_⟩
  rw [escChars_length, hloop, ← List.replicate_succ]
  congr 4
  omega

/-! ## Guards -/

/-- A backslash counts only when nothing else is behind it. -/
theorem trailingBackslashes_cons (b : UInt8) (front : List UInt8) :
    trailingBackslashes (b :: front) =
      if b = backslash ∧ trailingBackslashes front = front.length then front.length + 1
      else trailingBackslashes front := by
  unfold trailingBackslashes
  rw [List.reverse_cons, List.takeWhile_append, List.length_reverse]
  by_cases hall : (front.reverse.takeWhile (· == backslash)).length = front.length
  · by_cases hb : b = backslash
    · rw [if_pos hall, if_pos ⟨hb, hall⟩, hb, List.length_append, List.length_reverse]
      rfl
    · rw [if_pos hall, if_neg fun h ↦ hb h.1, List.takeWhile_cons_of_neg (by simpa using hb),
        List.append_nil, List.length_reverse, hall]
  · rw [if_neg hall, if_neg fun h ↦ hall h.2]

/-- An escape in front of a text keeps the parity. -/
theorem trailingBackslashes_escape (c : UInt8) (front : List UInt8) :
    trailingBackslashes (backslash :: c :: front) % 2 = trailingBackslashes front % 2 := by
  rw [trailingBackslashes_cons, trailingBackslashes_cons, List.length_cons]
  by_cases hall : c = backslash ∧ trailingBackslashes front = front.length
  · rw [if_pos hall, if_pos ⟨rfl, rfl⟩, hall.2]
    omega
  · have hle : trailingBackslashes front ≤ front.length := by
      rw [trailingBackslashes, ← front.length_reverse]
      exact (List.takeWhile_prefix _).length_le
    rw [if_neg hall, if_neg fun h ↦ by omega]

/-- A separator of the escaped value is the byte behind a backslash, and the escapes in front of
that are pairs. -/
theorem escChars_guarded (val : List UInt8) {front back : List UInt8} {b : UInt8}
    (h : escChars val = front ++ b :: back) (hb : b = comma ∨ b = equals) :
    trailingBackslashes front % 2 = 1 := by
  have hspecial : isSpecial b = true := by
    rcases hb with rfl | rfl <;> rfl
  have hslash : b ≠ backslash := by
    rcases hb with rfl | rfl <;> decide
  induction val generalizing front with
  | nil => exact absurd h.symm (by simp [escChars])
  | cons c rest ih =>
      unfold escChars at h
      split at h
      · cases front with
        | nil => exact absurd (List.cons.inj h).1.symm hslash
        | cons x front =>
            obtain ⟨hx, htail⟩ := List.cons.inj h
            cases front with
            | nil =>
                rw [← hx]
                rfl
            | cons y front =>
                have hrest := (List.cons.inj htail).2
                rw [← hx, trailingBackslashes_escape]
                exact ih hrest
      · rename_i hplain
        cases front with
        | nil => exact absurd ((List.cons.inj h).1 ▸ hspecial) hplain
        | cons x front =>
            obtain ⟨hx, htail⟩ := List.cons.inj h
            have hc : x ≠ backslash := fun heq ↦ hplain (by rw [hx, heq]; rfl)
            rw [trailingBackslashes_cons, if_neg fun hcons ↦ hc hcons.1]
            exact ih htail

/-- Escaping and unescaping are inverse and exactly sized, for every value. -/
theorem escapes_exactly (val : CStr) : EscapesExactly val where
  sized := escCount_escChars val
  written _ hblock := escWrite_block val hblock
  unescaped := unescapeLoop_escChars val
  guarded _ _ _ h hb := escChars_guarded val.bytes h hb

end DirtieNode.Flashmem
