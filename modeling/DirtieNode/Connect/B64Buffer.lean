import DirtieNode.Connect.Cleanup
import DirtieNode.Connect.LogBuffer
import DirtieNode.Library.Growable

/-!
# The buffer of the encoder

`b64_encode` as it runs: bytes are collected in `tmp`, the characters of each group go to a buffer
that is reallocated as it fills up, and the result is copied out at the end. `b64Encode_buffered`
says that it writes inside its buffer, returns what `b64Encode` says, and which of its allocations
have to succeed for that.
-/

namespace DirtieNode.Connect

open CString Growable

/-- What a call of `b64_encode` has done: its result code, the bytes that `strcpy` has copied to
`result`, and the blocks that are still allocated. -/
structure Encoded where
  err : DtErr
  copied : Option (List UInt8)
  blocks : Nat

instance : NeZero b64BufferSize := ⟨by decide⟩

/-- The four characters of a group. -/
def groupChars (a b c : UInt8) : List UInt8 :=
  [b64Char ((a &&& 0xfc) >>> 2), b64Char (((a &&& 0x03) <<< 4) + ((b &&& 0xf0) >>> 4)),
    b64Char (((b &&& 0x0f) <<< 2) + ((c &&& 0xc0) >>> 6)), b64Char (c &&& 0x3f)]

/-- Stores into the buffer. Behind the end of its memory they are undefined behaviour. -/
def putAll : List UInt8 → Buffer UInt8 → Option (Buffer UInt8)
  | [], b => some b
  | c :: chars, b => (put c b).bind (putAll chars)

/-- The loop over the source, with `tmp` and the buffer; an inner `none` is a failed allocation. -/
def encodeLoop (allocs : Allocs UInt8) :
    List UInt8 → List UInt8 → Buffer UInt8 → Option (Option (List UInt8 × Buffer UInt8))
  | [], tmp, b => some (some (tmp, b))
  | c :: src, tmp, b =>
      match tmp ++ [c] with
      | [a, b', c'] =>
          match reserve b64BufferSize allocs (b.size + 4) b with
          | none => some none
          | some b => do
              let b ← putAll (groupChars a b' c') b
              encodeLoop allocs src [] b
      | tmp => encodeLoop allocs src tmp b

/-- The loops behind it, which make room for each character. -/
def putEach (allocs : Allocs UInt8) : List UInt8 → Buffer UInt8 → Option (Option (Buffer UInt8))
  | [], b => some (some b)
  | c :: chars, b =>
      match reserve b64BufferSize allocs (b.size + 1) b with
      | none => some none
      | some b => do
          let b ← put c b
          putEach allocs chars b

/-- The characters of the remainder: `tmp` is filled with zeros, and `=` stands for what is
missing. -/
def remainderChars (tmp : List UInt8) : List UInt8 :=
  if tmp.length = 0 then []
  else
    (groupChars (tmp.getD 0 0) (tmp.getD 1 0) (tmp.getD 2 0)).take (tmp.length + 1) ++
      List.replicate (3 - tmp.length) 61

/-- `b64_encode`. The terminator is stored as one more character. -/
def b64EncodeBuffered (allocs : Allocs UInt8) (src : List UInt8) : Option Encoded :=
  match create b64BufferSize allocs with
  | none => some ⟨.malloc, none, 0⟩
  | some b => do
      match ← encodeLoop allocs src [] b with
      | none => pure ⟨.malloc, none, 1⟩
      | some (tmp, b) =>
          match ← putEach allocs (remainderChars tmp ++ [0]) b with
          | none => pure ⟨.malloc, none, 1⟩
          | some b => do
              let text ← get b.mem
              pure ⟨.ok, some (text ++ [0]), 0⟩

variable {allocs : Allocs UInt8} {b : Buffer UInt8} {text : List UInt8} {room : Nat}

/-- The buffer holds the text, with no more room than that. -/
abbrev Filled (allocs : Allocs UInt8) (b : Buffer UInt8) (text : List UInt8) : Prop :=
  Reserved b64BufferSize allocs b text text.length

/-- There is room for a group more, or an allocation fails. -/
theorem reserve_filled (h : Filled allocs b text) {count : Nat} (hcount : count ≤ 4) :
    (∃ b', reserve b64BufferSize allocs (text.length + count) b = some b' ∧
      Reserved b64BufferSize allocs b' text (text.length + count)) ∨
      reserve b64BufferSize allocs (text.length + count) b = none ∧
        Fails b64BufferSize allocs (text.length + count) :=
  reserve_cases h (Nat.le_add_right _ _) (Nat.add_le_add_left (hcount.trans (by decide)) _)

/-- Characters that fit the room are put behind the text. -/
theorem putAll_reserved (h : Reserved b64BufferSize allocs b text room) {chars : List UInt8}
    (hroom : text.length + chars.length ≤ room) :
    ∃ b', putAll chars b = some b' ∧ Reserved b64BufferSize allocs b' (text ++ chars) room := by
  induction chars generalizing b text with
  | nil => exact ⟨b, rfl, by rwa [List.append_nil]⟩
  | cons c chars ih =>
      rw [List.length_cons] at hroom
      obtain ⟨b', hput, hafter⟩ := put_reserved h c (by omega)
      obtain ⟨final, hfinal, hdone⟩ := ih hafter (by simp; omega)
      refine ⟨final, ?_, by rwa [List.append_cons]⟩
      rw [putAll, hput]
      exact hfinal

/-- Each character finds room, or an allocation fails. -/
theorem putEach_cases (h : Filled allocs b text) (chars : List UInt8) :
    (∃ b', putEach allocs chars b = some (some b') ∧ Filled allocs b' (text ++ chars)) ∨
      putEach allocs chars b = some none ∧
        Fails b64BufferSize allocs (text ++ chars).length := by
  induction chars generalizing b text with
  | nil => exact .inl ⟨b, rfl, by rwa [List.append_nil]⟩
  | cons c chars ih =>
      unfold putEach
      rw [h.size]
      rcases reserve_filled h (by omega : 1 ≤ 4) with ⟨b', hreserve, hb'⟩ | ⟨hnone, hfails⟩
      · obtain ⟨b'', hput, hb''⟩ := put_reserved hb' c (Nat.lt_succ_self _)
        have hfilled : Filled allocs b'' (text ++ [c]) := by
          show Reserved b64BufferSize allocs b'' (text ++ [c]) (text ++ [c]).length
          rwa [List.length_append, List.length_singleton]
        have hrest := ih hfilled
        rw [← List.append_cons] at hrest
        simpa only [hreserve, hput, Option.bind_eq_bind, Option.bind_some] using hrest
      · rw [hnone]
        refine .inr ⟨rfl, hfails.mono ?_⟩
        simp

/-- The groups of the source go to the buffer, and what is left of it stays in `tmp`. -/
theorem encodeLoop_cases (h : Filled allocs b text) (src : List UInt8) {tmp : List UInt8}
    (htmp : tmp.length < 3) :
    (∃ tmp' b' text', encodeLoop allocs src tmp b = some (some (tmp', b')) ∧
      Filled allocs b' text' ∧ tmp'.length < 3 ∧
        text' ++ b64Encode tmp' = text ++ b64Encode (tmp ++ src)) ∨
      encodeLoop allocs src tmp b = some none ∧
        Fails b64BufferSize allocs (text ++ b64Encode (tmp ++ src)).length := by
  induction src generalizing b text tmp with
  | nil => exact .inl ⟨tmp, b, text, rfl, h, htmp, by rw [List.append_nil]⟩
  | cons c src ih =>
      rw [List.append_cons]
      match tmp, htmp with
      | [], _ => exact ih h (by simp)
      | [a], _ => exact ih h (by simp)
      | [a, b'], _ =>
          have hgroup : b64Encode ([a, b'] ++ [c] ++ src) = groupChars a b' c ++ b64Encode src := by
            simp only [List.cons_append, List.nil_append, b64Encode, groupChars]
          rw [hgroup, ← List.append_assoc]
          simp only [encodeLoop, List.cons_append, List.nil_append, h.size]
          rcases reserve_filled h (Nat.le_refl 4) with ⟨b'', hreserve, hb''⟩ | ⟨hnone, hfails⟩
          · have hroom : text.length + (groupChars a b' c).length ≤ text.length + 4 :=
              Nat.le_refl _
            obtain ⟨final, hput, hfinal⟩ := putAll_reserved hb'' hroom
            have hfilled : Filled allocs final (text ++ groupChars a b' c) := by
              show Reserved b64BufferSize allocs final _ (text ++ groupChars a b' c).length
              rwa [List.length_append]
            have hempty : ([] : List UInt8).length < 3 := by simp
            have hrest := ih hfilled hempty
            simpa only [hreserve, hput, Option.bind_eq_bind, Option.bind_some, List.nil_append]
              using hrest
          · rw [hnone]
            refine .inr ⟨rfl, hfails.mono ?_⟩
            simp only [List.length_append, groupChars, List.length_cons, List.length_nil]
            omega

/-- The remainder is encoded as the function says. -/
theorem remainderChars_eq {tmp : List UInt8} (h : tmp.length < 3) :
    remainderChars tmp = b64Encode tmp := by
  match tmp, h with
  | [], _ => rfl
  | [a], _ => simp [remainderChars, groupChars, b64Encode]
  | [a, b], _ => simp [remainderChars, groupChars, b64Encode]

/-- The allocations that the encoding of a source takes, the terminator included, succeed. -/
def Succeeds (allocs : Allocs UInt8) (src : List UInt8) : Prop :=
  ∀ k < pieces b64BufferSize ((b64Encode src).length + 1), (allocs k).isSome = true

/-- Without memory for its text, the encoding fails. -/
theorem not_succeeds {src : List UInt8} (h : Fails b64BufferSize allocs room)
    (hle : room ≤ (b64Encode src).length + 1) : ¬ Succeeds allocs src := by
  intro hall
  obtain ⟨k, _, hlt, hnone⟩ := h.mono hle
  have hsome := hall k hlt
  rw [hnone] at hsome
  exact absurd hsome (by simp)

/-- The buffer is filled with the encoded source, and its terminator is the first. -/
theorem filled_get {src : List UInt8} (h : Filled allocs b (b64Encode src ++ [0])) :
    Succeeds allocs src ∧ get b.mem = some (b64Encode src) := by
  refine ⟨fun k hk ↦ h.succeeded k ?_, get_holds ?_⟩
  · rw [h.pieces, List.length_append, List.length_singleton]
    exact hk
  · have hsplit := List.take_append_drop (b64Encode src ++ [0]).length b.mem
    rw [h.written] at hsplit
    rw [← hsplit, List.append_assoc]
    exact holds_append (zero_notMem_b64Encode src)

/-- What happens once there is a buffer. -/
theorem encode_cases (h : Filled allocs b []) (src : List UInt8) :
    (∃ tmp b' b'', encodeLoop allocs src [] b = some (some (tmp, b')) ∧
      putEach allocs (remainderChars tmp ++ [0]) b' = some (some b'') ∧
        Filled allocs b'' (b64Encode src ++ [0])) ∨
      (encodeLoop allocs src [] b = some none ∨
        ∃ tmp b', encodeLoop allocs src [] b = some (some (tmp, b')) ∧
          putEach allocs (remainderChars tmp ++ [0]) b' = some none) ∧
        ¬ Succeeds allocs src := by
  have hempty : ([] : List UInt8).length < 3 := by simp
  rcases encodeLoop_cases h src hempty with
    ⟨tmp, b', text, hloop, hfilled, htmp, htext⟩ | ⟨hloop, hfails⟩
  · have hwhole : text ++ (remainderChars tmp ++ [0]) = b64Encode src ++ [0] := by
      rw [remainderChars_eq htmp, ← List.append_assoc, htext]
      rfl
    rcases putEach_cases hfilled (remainderChars tmp ++ [0]) with ⟨b'', heach, hdone⟩ |
      ⟨heach, hfails⟩
    · rw [hwhole] at hdone
      exact .inl ⟨tmp, b', b'', hloop, heach, hdone⟩
    · rw [hwhole] at hfails
      refine .inr ⟨.inr ⟨tmp, b', hloop, heach⟩, not_succeeds hfails ?_⟩
      rw [List.length_append, List.length_singleton]
  · exact .inr ⟨.inl hloop, not_succeeds hfails (Nat.le_succ _)⟩

/-- For every source and whatever the allocations give, `b64_encode` stays inside its buffer. It
makes one allocation for each started piece of the result and its terminator. If all of them
succeed, it copies out the encoded source and frees its block. Otherwise it reports the failure and
copies nothing, and if the first one has succeeded, its block is lost. -/
theorem b64Encode_buffered (allocs : Allocs UInt8) (src : List UInt8) :
    (Succeeds allocs src → b64EncodeBuffered allocs src =
      some ⟨.ok, some (b64Encode src ++ [0]), 0⟩) ∧
    (¬ Succeeds allocs src → b64EncodeBuffered allocs src =
      some ⟨.malloc, none, (allocs 0).isSome.toNat⟩) := by
  unfold b64EncodeBuffered
  cases hfirst : allocs 0 with
  | none =>
      have hcreate : create b64BufferSize allocs = none := by rw [create, hfirst]; rfl
      rw [hcreate]
      refine ⟨fun hall ↦ ?_, fun _ ↦ rfl⟩
      have hsome := hall 0 (pieces_pos _)
      rw [hfirst] at hsome
      exact absurd hsome (by simp)
  | some fresh =>
      obtain ⟨b, hcreate⟩ : ∃ b, create b64BufferSize allocs = some b := by
        rw [create, hfirst]
        exact ⟨_, rfl⟩
      rw [hcreate]
      rcases encode_cases (create_reserved hcreate) src with
        ⟨tmp, b', b'', hloop, heach, hdone⟩ | ⟨hrun, hnot⟩
      · obtain ⟨hall, hget⟩ := filled_get hdone
        refine ⟨fun _ ↦ ?_, fun hnot ↦ absurd hall hnot⟩
        simp only [hloop, heach, hget, Option.bind_eq_bind, Option.bind_some, Option.pure_def]
      · refine ⟨fun hall ↦ absurd hall hnot, fun _ ↦ ?_⟩
        rcases hrun with hloop | ⟨tmp, b', hloop, heach⟩
        · simp only [hloop, Option.bind_eq_bind, Option.bind_some, Option.pure_def]
          rfl
        · simp only [hloop, heach, Option.bind_eq_bind, Option.bind_some, Option.pure_def]
          rfl

end DirtieNode.Connect
