import Mathlib.Data.List.TakeWhile
import DirtieNode.Flashmem.Store

/-!
# The store as a string

`stored content key val` is the string that an accepted `upsert_key` leaves where the buffer held
`content`, in terms of the first occurrence of `key=` alone. `upsertKey_stored` says that
`upsertKey` computes it. `upsertKey_full` and `upsertKey_overrun` say what happens to a result that
does not fit the buffer: it is refused, or it is written past the end.
-/

namespace DirtieNode.Flashmem

open CString

@[simp] theorem backslash_ne_comma : backslash ≠ comma := by decide
@[simp] theorem comma_ne_backslash : comma ≠ backslash := by decide
@[simp] theorem equals_ne_comma : equals ≠ comma := by decide
@[simp] theorem comma_ne_equals : comma ≠ equals := by decide
@[simp] theorem equals_ne_backslash : equals ≠ backslash := by decide
@[simp] theorem backslash_ne_equals : backslash ≠ equals := by decide
@[simp] theorem comma_ne_zero : comma ≠ 0 := by decide
@[simp] theorem equals_ne_zero : equals ≠ 0 := by decide
@[simp] theorem backslash_ne_zero : backslash ≠ 0 := by decide

/-! ## Escaped values -/

/-- The two passes of `esc_chars` agree on the size. -/
theorem escSize_eq (val : List UInt8) : escSize val = (escChars val).length + 1 := by
  induction val with
  | nil => rfl
  | cons c rest ih =>
      unfold escSize escChars
      split <;> simp [ih] <;> omega

/-- Each special byte costs one backslash. -/
theorem escChars_length (val : List UInt8) :
    (escChars val).length = val.length + val.countP isSpecial := by
  induction val with
  | nil => rfl
  | cons c rest ih =>
      unfold escChars
      split
      · rename_i hspecial
        simp only [List.length_cons, List.countP_cons_of_pos hspecial]
        omega
      · rename_i hplain
        simp only [List.length_cons, List.countP_cons_of_neg hplain]
        omega

/-- Escaping at most doubles a value. -/
theorem escChars_length_le (val : List UInt8) : (escChars val).length ≤ 2 * val.length := by
  have hcount : val.countP isSpecial ≤ val.length := List.countP_le_length
  rw [escChars_length]
  omega

/-- Escaping adds no terminator. -/
theorem escChars_nul_free {val : List UInt8} (h : 0 ∉ val) : 0 ∉ escChars val := by
  induction val with
  | nil => simp [escChars]
  | cons c rest ih =>
      simp only [List.mem_cons, not_or] at h
      unfold escChars
      split
      · simp [h.1, ih h.2, backslash_ne_zero.symm]
      · simp [h.1, ih h.2]

/-! ## Items -/

/-- The text of an item, from behind its `=` to the next comma. -/
def itemText (after : List UInt8) : List UInt8 :=
  after.takeWhile (· != comma)

/-- The items behind it. -/
def itemRest (after : List UInt8) : List UInt8 :=
  after.dropWhile (· != comma)

/-- The text of an item and what is behind it. -/
@[simp] theorem itemText_append_itemRest (after : List UInt8) :
    itemText after ++ itemRest after = after :=
  List.takeWhile_append_dropWhile

/-- The text of an item is at the front. -/
theorem itemText_prefix_self (after : List UInt8) : itemText after <+: after :=
  List.takeWhile_prefix _

/-- The text of an item ends at its first comma. -/
theorem comma_not_mem_itemText (after : List UInt8) : comma ∉ itemText after := by
  intro h
  have := List.mem_takeWhile_imp h
  simp at this

/-- A text without a comma in front of the rest of the items is the item's text. -/
theorem itemText_append {text rest : List UInt8} (htext : comma ∉ text)
    (hrest : itemText rest = []) : itemText (text ++ rest) = text := by
  have hall : ∀ b ∈ text, (b != comma) = true := by
    intro b hb
    simpa using fun heq : b = comma ↦ htext (heq ▸ hb)
  unfold itemText at hrest ⊢
  rw [List.takeWhile_append_of_pos hall, hrest, List.append_nil]

/-- Behind the text of an item there is a comma, or nothing. -/
theorem itemText_itemRest (after : List UInt8) : itemText (itemRest after) = [] := by
  unfold itemText itemRest
  induction after with
  | nil => rfl
  | cons b rest ih =>
      by_cases hb : b = comma
      · simp [hb]
      · simpa [hb] using ih

/-- An item that is followed by another one keeps its text. -/
theorem itemText_append_comma (text rest : List UInt8) :
    itemText (text ++ comma :: rest) = itemText text := by
  induction text with
  | nil => simp [itemText]
  | cons b text ih =>
      simp only [itemText] at ih
      by_cases hb : b = comma
      · simp [itemText, hb]
      · simp [itemText, hb, ih]

/-- `get_next_item` stops at the end of the text, or finds no comma behind it. -/
theorem getNextItem_holds {mem s : List UInt8} (h : Holds mem s) :
    getNextItem mem = some (if comma ∈ s then some (itemText s).length else none) := by
  obtain ⟨rest, rfl, hs⟩ := h
  induction s with
  | nil => simp [getNextItem]
  | cons b s ih =>
      have hb : b ≠ 0 := fun heq ↦ hs (by simp [heq])
      have hrec := ih (fun hmem ↦ hs (List.mem_cons_of_mem b hmem))
      by_cases hcomma : b = comma
      · simp [getNextItem, hcomma, itemText]
      · have hcomma' : comma ≠ b := Ne.symm hcomma
        simp only [List.cons_append, getNextItem, hb, hcomma, if_false, hrec, List.mem_cons,
          hcomma', false_or, itemText]
        split <;> simp [hcomma]

/-- The whole text is that of one item when it has no comma. -/
theorem itemText_eq_self_iff {s : List UInt8} : itemText s = s ↔ comma ∉ s := by
  refine ⟨fun h hmem ↦ comma_not_mem_itemText s (h.symm ▸ hmem), fun h ↦ ?_⟩
  have hself : itemText (s ++ []) = s := itemText_append h rfl
  rwa [List.append_nil] at hself

/-- A comma ends the text, whatever comes behind it. -/
theorem itemText_append_of_mem {text : List UInt8} (h : comma ∈ text) (rest : List UInt8) :
    itemText (text ++ rest) = itemText text := by
  induction text with
  | nil => simp at h
  | cons b text ih =>
      by_cases hb : b = comma
      · simp [itemText, hb]
      · have hmem : comma ∈ text := by simpa [Ne.symm hb] using h
        have hrec := ih hmem
        simp only [itemText] at hrec
        simp [itemText, hb, hrec]

/-- A text without commas is that of one item. -/
theorem itemText_eq_self {s : List UInt8} (h : comma ∉ s) : itemText s = s :=
  itemText_eq_self_iff.mpr h

/-! ## `splice` -/

section Splice

variable {buf before old tail replace : List UInt8}

/-- What `splice` compares with `NVS_SIZE`: not the length of the result, but the length up to the
item's end and back again from its start. -/
theorem splice_size (h : before.length + old.length + tail.length < nvsSize)
    (hreplace : replace.length < 2 ^ 32 - 2 ^ 14) :
    sizeT (((before ++ old ++ tail).length : Int) +
      sizeT ((before.length : Int) - (tail.length : Nat)) + replace.length) =
      2 * before.length + old.length + replace.length := by
  simp only [List.length_append]
  unfold sizeT
  unfold nvsSize at h
  omega

/-- The size test counts the text in front of the item twice. -/
theorem splice_refused (h : Holds buf (before ++ old ++ tail)) (hbuf : buf.length = nvsSize)
    (hreplace : replace.length < 2 ^ 32 - 2 ^ 14)
    (hsize : nvsSize < 2 * before.length + old.length + replace.length) :
    splice buf before.length (before ++ old).length replace = some (.flashmemsize, buf) := by
  have hlen : before.length + old.length + tail.length < nvsSize := by
    have := h.length_lt
    simpa [hbuf, Nat.add_assoc] using this
  unfold splice
  rw [strlen_holds h.drop, strlen_holds h]
  simp only [bind, Option.bind_some, splice_size hlen hreplace, gt_iff_lt, hsize, if_true]
  rfl

/-- The copies of an accepted `splice`, once the size test has passed and the front of the buffer
is written back. -/
theorem splice_copies (h : Holds buf (before ++ old ++ tail)) (hbuf : buf.length = nvsSize)
    (hsize : 2 * before.length + old.length + replace.length ≤ nvsSize) :
    splice buf before.length (before ++ old).length replace =
      (memcpy (before ++ List.replicate (nvsSize - before.length) 0) before.length replace).bind
        fun buf ↦ (strchr (buf.drop before.length) 0).bind fun found ↦ found.bind fun offset ↦
          (memcpy buf (before.length + offset) tail).bind fun buf ↦ some (.ok, buf) := by
  have hlen : before.length + old.length + tail.length < nvsSize := by
    have := h.length_lt
    simpa [hbuf, Nat.add_assoc] using this
  have hbound : replace.length < 2 ^ 32 - 2 ^ 14 := by
    unfold nvsSize at hsize
    omega
  have hpre : load buf 0 before.length = some before := by
    obtain ⟨rest, rfl, _⟩ := h
    rw [load_eq_some (by simp)]
    simp
  have hpost : load buf (before ++ old).length tail.length = some tail := by
    obtain ⟨rest, rfl, _⟩ := h
    rw [load_eq_some (by simp; omega), List.append_assoc (before ++ old), List.drop_left,
      List.take_left]
  have hfirst := memcpy_replicate [] before nvsSize 0 (by omega)
  simp only [List.nil_append, List.length_nil] at hfirst
  unfold splice
  rw [strlen_holds h.drop, strlen_holds h]
  simp only [bind, Option.bind_some, splice_size hlen hbound, gt_iff_lt,
    Nat.not_lt.mpr hsize, if_false, hpre, hpost, memset_eq_some hbuf, hfirst]
  rfl

/-- An accepted `splice` whose result fits puts the replacement in place of the old item and
clears the rest of the buffer. -/
theorem splice_accepted (h : Holds buf (before ++ old ++ tail)) (hbuf : buf.length = nvsSize)
    (hreplace : 0 ∉ replace)
    (hsize : 2 * before.length + old.length + replace.length ≤ nvsSize)
    (hfits : (before ++ replace ++ tail).length < nvsSize) :
    splice buf before.length (before ++ old).length replace =
      some (.ok, before ++ replace ++ tail ++
        List.replicate (nvsSize - (before ++ replace ++ tail).length) 0) := by
  simp only [List.length_append] at hfits
  have hsecond := memcpy_replicate before replace (nvsSize - before.length) 0 (by omega)
  have hend := strchr_zero_holds
    (holds_replicate (nvsSize - before.length - replace.length) hreplace (by omega))
  have hthird := memcpy_replicate (before ++ replace) tail
    (nvsSize - before.length - replace.length) 0 (by omega)
  rw [List.length_append] at hthird
  rw [splice_copies h hbuf hsize, hsecond, Option.bind_some, List.append_assoc, List.drop_left,
    hend, Option.bind_some, Option.bind_some, ← List.append_assoc, hthird, Option.bind_some]
  simp only [List.length_append, Nat.sub_sub, Nat.add_assoc]

/-- An accepted `splice` whose result does not fit writes outside the buffer, or fills it to the
last byte and leaves no terminator. -/
theorem splice_overrun (h : Holds buf (before ++ old ++ tail)) (hbuf : buf.length = nvsSize)
    (hreplace : 0 ∉ replace)
    (hsize : 2 * before.length + old.length + replace.length ≤ nvsSize)
    (hover : nvsSize ≤ (before ++ replace ++ tail).length) {err : DtErr} {buf' : List UInt8}
    (hrun : splice buf before.length (before ++ old).length replace = some (err, buf')) :
    0 ∉ buf' := by
  have hsecond := memcpy_replicate before replace (nvsSize - before.length) 0 (by omega)
  simp only [List.length_append] at hover
  rw [splice_copies h hbuf hsize, hsecond, Option.bind_some, List.append_assoc, List.drop_left]
    at hrun
  by_cases hroom : replace.length + before.length < nvsSize
  · -- the terminator is found, so the rest of the items has to reach the end of the buffer exactly
    have hend := strchr_zero_holds
      (holds_replicate (nvsSize - before.length - replace.length) hreplace (by omega))
    rw [hend, Option.bind_some, Option.bind_some, ← List.append_assoc, ← List.length_append] at hrun
    obtain ⟨final, hcopy, hfinal⟩ := Option.bind_eq_some_iff.mp hrun
    simp only [Option.some.injEq, Prod.mk.injEq] at hfinal
    obtain ⟨_, rfl⟩ := hfinal
    have hexact : tail.length ≤ nvsSize - before.length - replace.length := by
      by_contra hlong
      rw [memcpy_eq_none_iff.mpr (by simp; omega)] at hcopy
      simp at hcopy
    rw [memcpy_replicate _ _ _ 0 hexact, Option.some.injEq] at hcopy
    have hnul := h.nul_free
    simp only [List.mem_append, not_or] at hnul
    have hfull : nvsSize - before.length - replace.length - tail.length = 0 := by omega
    rw [hfull] at hcopy
    simp [← hcopy, hnul, hreplace]
  · -- the replacement alone fills the buffer and the search for its end leaves it
    have hfull : nvsSize - before.length - replace.length = 0 := by omega
    rw [hfull, List.replicate_zero, List.append_nil, strchr_zero_eq_none hreplace] at hrun
    simp at hrun

end Splice

/-! ## `upsert_key` -/

/-- The item `key=esc_chars(val)`. -/
def newItem (key val : CStr) : List UInt8 :=
  keySearch key ++ escChars val.bytes

/-- The string in the buffer after `upsert_key` has returned `DT_ERR_OK`, or `none` when it returns
`DT_ERR_FLASHMEMSIZE`. The last branch is a refused `splice`, which `upsert_key` does not report. -/
def stored (content : List UInt8) (key val : CStr) : Option (List UInt8) :=
  match splitFirst (keySearch key) content with
  | none =>
      if (newItem key val).length + content.length + 1 ≤ nvsSize - 1 then
        some (content ++ comma :: newItem key val)
      else none
  | some (before, after) =>
      if 2 * before.length + (keySearch key ++ itemText after).length + (newItem key val).length
          ≤ nvsSize then
        some (before ++ newItem key val ++ itemRest after)
      else some content

/-- The length of an item, from its key and its value. -/
def itemSize (key val : CStr) : Nat :=
  key.bytes.length + 1 + val.bytes.length + val.bytes.countP isSpecial

/-- A new item has its size. -/
theorem newItem_length (key val : CStr) : (newItem key val).length = itemSize key val := by
  simp only [newItem, keySearch, itemSize, escChars_length, List.length_append, List.length_cons,
    List.length_nil]
  omega

/-- A value of one plain byte has nothing to escape. -/
theorem itemSize_replicate (key : CStr) (count : Nat) (b : UInt8) (hb : b ≠ 0)
    (hfits : count < 2 ^ 30) (hplain : isSpecial b = false) :
    itemSize key (.replicate count b hb hfits) = key.bytes.length + 1 + count := by
  simp [itemSize, List.countP_replicate, hplain]

/-- The length of the string that an accepted upsert leaves, from the place of the key in the
store and the lengths involved. -/
def storedLength (content : List UInt8) (key val : CStr) : Nat :=
  match splitFirst (keySearch key) content with
  | none => content.length + 1 + itemSize key val
  | some (before, after) =>
      if 2 * before.length + (key.bytes.length + 1 + (itemText after).length) + itemSize key val
          ≤ nvsSize then
        before.length + itemSize key val + (itemRest after).length
      else content.length

section Stored

variable {content final : List UInt8} {key val : CStr}

/-- An append is refused when the item and the terminator have no room. -/
theorem stored_eq_none (h : stored content key val = none) :
    splitFirst (keySearch key) content = none ∧
      nvsSize - 1 < (newItem key val).length + content.length + 1 := by
  unfold stored at h
  cases hcut : splitFirst (keySearch key) content with
  | none =>
      rw [hcut] at h
      exact ⟨rfl, by simpa using h⟩
  | some cut =>
      rw [hcut] at h
      dsimp only at h
      split at h <;> simp at h

/-- An upsert that returns `DT_ERR_OK` has appended the item, or put it in place of the old one, or
`splice` has refused it. -/
theorem stored_eq_some (h : stored content key val = some final) :
    (splitFirst (keySearch key) content = none ∧
        (newItem key val).length + content.length + 1 ≤ nvsSize - 1 ∧
        final = content ++ comma :: newItem key val) ∨
      ∃ before after, splitFirst (keySearch key) content = some (before, after) ∧
        (2 * before.length + (keySearch key ++ itemText after).length +
              (newItem key val).length ≤ nvsSize ∧
            final = before ++ newItem key val ++ itemRest after ∨
          nvsSize < 2 * before.length + (keySearch key ++ itemText after).length +
              (newItem key val).length ∧ final = content) := by
  unfold stored at h
  cases hcut : splitFirst (keySearch key) content with
  | none =>
      rw [hcut] at h
      dsimp only at h
      split at h
      · rename_i hroom
        exact .inl ⟨rfl, hroom, (Option.some.inj h).symm⟩
      · simp at h
  | some cut =>
      obtain ⟨before, after⟩ := cut
      rw [hcut] at h
      dsimp only at h
      refine .inr ⟨before, after, rfl, ?_⟩
      split at h
      · rename_i hsize
        exact .inl ⟨hsize, (Option.some.inj h).symm⟩
      · rename_i hsize
        exact .inr ⟨Nat.lt_of_not_le hsize, (Option.some.inj h).symm⟩

/-- The length of a key with its `=` and a text behind it. -/
theorem keySearch_append_length (key : CStr) (text : List UInt8) :
    (keySearch key ++ text).length = key.bytes.length + 1 + text.length := by
  simp only [keySearch, List.length_append, List.length_cons, List.length_nil]

/-- The new string has the length that the places of the old one tell. -/
theorem stored_length (h : stored content key val = some final) :
    final.length = storedLength content key val := by
  unfold storedLength
  rcases stored_eq_some h with ⟨hcut, _, rfl⟩ |
    ⟨before, after, hcut, ⟨hsize, rfl⟩ | ⟨hsize, rfl⟩⟩
  · rw [hcut]
    simp only [List.length_append, List.length_cons, newItem_length]
    omega
  · rw [keySearch_append_length, newItem_length] at hsize
    simp only [hcut, if_pos hsize, List.length_append, newItem_length]
  · rw [keySearch_append_length, newItem_length] at hsize
    simp only [hcut, if_neg (Nat.not_le_of_lt hsize)]

end Stored

/-- The text that is searched for is never empty. -/
theorem keySearch_ne_nil (key : CStr) : keySearch key ≠ [] := by
  simp [keySearch]

/-- The text that is searched for has no terminator. -/
theorem keySearch_nul_free (key : CStr) : 0 ∉ keySearch key := by
  simp [keySearch, key.nul_free, equals_ne_zero.symm]

/-- The text that is searched for a valid key has no comma. -/
theorem comma_not_mem_keySearch {key : CStr} (h : ¬ badKey key) : comma ∉ keySearch key := by
  unfold badKey at h
  simp_all [keySearch]

/-- The search for a key skips a comma. -/
theorem splitFirst_comma {key : CStr} (h : ¬ badKey key) (rest : List UInt8) :
    splitFirst (keySearch key) (comma :: rest) =
      (splitFirst (keySearch key) rest).map fun cut ↦ (comma :: cut.1, cut.2) := by
  have hne := keySearch_ne_nil key
  have hstart := splitFirst_separator (comma_not_mem_keySearch h) hne [] rest
  rwa [splitFirst, if_neg hne] at hstart

/-- A new item has no terminator. -/
theorem newItem_nul_free (key val : CStr) : 0 ∉ newItem key val := by
  simp [newItem, keySearch_nul_free, escChars_nul_free val.nul_free]

/-- An item is small enough for `size_t` arithmetic. -/
theorem newItem_length_lt (key val : CStr) : (newItem key val).length < 2 ^ 32 - 2 ^ 14 := by
  have hkey := key.fits
  have hval := val.fits
  have hesc := escChars_length_le val.bytes
  simp only [newItem, keySearch, List.length_append, List.length_cons, List.length_nil]
  omega

/-- A region that is not erased is left alone. -/
theorem initializeFlash_of_mem {region : Region} {b : UInt8} (hmem : b ∈ region.bytes)
    (hb : b ≠ 0xFF) (mallocOk : Bool) :
    initializeFlash false mallocOk region = some (.ok, region) := by
  have hany : region.bytes.any (· != 0xFF) = true :=
    List.any_eq_true.mpr ⟨b, hmem, by simpa using hb⟩
  simp [initializeFlash, hany]

/-- `splice` keeps the size of its buffer. -/
theorem splice_length {buf replace buf' : List UInt8} {start stop : Nat} {err : DtErr}
    (h : splice buf start stop replace = some (err, buf')) : buf'.length = buf.length := by
  unfold splice at h
  simp only [bind, pure, Option.bind_eq_some_iff] at h
  obtain ⟨_, _, _, _, h⟩ := h
  split at h
  · simp only [Option.some.injEq, Prod.mk.injEq] at h
    rw [h.2]
  · simp only [Option.bind_eq_some_iff, Option.some.injEq, Prod.mk.injEq] at h
    obtain ⟨_, _, _, _, _, hset, _, hpre, _, hrep, _, _, _, _, _, hpost, _, rfl⟩ := h
    rw [memcpy_length hpost, memcpy_length hrep, memcpy_length hpre, memcpy_length hset]

/-- `upsert_key` works inside its buffer. -/
theorem upsertKey_length {key val : CStr} {region region' : Region} {buf buf' : List UInt8}
    {err : DtErr} (hbuf : buf.length = nvsSize)
    (h : upsertKey key val region buf = some (err, region', buf')) : buf'.length = nvsSize := by
  unfold upsertKey at h
  split at h
  · simp only [Option.some.injEq, Prod.mk.injEq] at h
    rw [← h.2.2, hbuf]
  · simp only [bind, pure, Option.bind_eq_some_iff] at h
    obtain ⟨_, _, found, _, h⟩ := h
    cases found with
    | none =>
        simp only [Option.bind_eq_some_iff] at h
        obtain ⟨_, _, h⟩ := h
        split at h
        · simp only [Option.some.injEq, Prod.mk.injEq] at h
          rw [← h.2.2, hbuf]
        · simp only [Option.bind_eq_some_iff, Option.some.injEq, Prod.mk.injEq] at h
          obtain ⟨_, _, _, _, _, hcomma, _, hcopy, _, _, rfl⟩ := h
          rw [memcpy_length hcopy, memcpy_length hcomma, hbuf]
    | some keyLoc =>
        simp only [Option.bind_eq_some_iff] at h
        obtain ⟨next, _, h⟩ := h
        cases next with
        | none =>
            simp only [Option.bind_eq_some_iff, Option.some.injEq, Prod.mk.injEq] at h
            obtain ⟨_, _, _, _, ⟨_, _⟩, hsplice, _, _, rfl⟩ := h
            rw [splice_length hsplice, hbuf]
        | some next =>
            simp only [Option.bind_eq_some_iff, Option.some.injEq, Prod.mk.injEq] at h
            obtain ⟨_, _, ⟨_, _⟩, hsplice, _, _, rfl⟩ := h
            rw [splice_length hsplice, hbuf]

section Upsert

variable {content buf : List UInt8} {key val : CStr} {region : Region}

/-- The end of an item that `upsert_key` computes from the two searches is the end of its text. -/
theorem itemEnd_eq {before after : List UInt8} (hkey : ¬ badKey key)
    (h : Holds buf (before ++ keySearch key ++ after)) :
    (getNextItem (buf.drop before.length)).bind (fun next ↦ match next with
      | some next => some (before.length + next)
      | none => (strchr buf 0).bind fun found ↦ found) =
    some (before ++ (keySearch key ++ itemText after)).length := by
  have hdrop : Holds (buf.drop before.length) (keySearch key ++ after) :=
    Holds.drop (by rwa [← List.append_assoc])
  have hcomma := comma_not_mem_keySearch hkey
  rw [getNextItem_holds hdrop, Option.bind_some]
  by_cases hafter : comma ∈ after
  · have htext : itemText (keySearch key ++ after) = keySearch key ++ itemText after := by
      conv_lhs => rw [← itemText_append_itemRest after, ← List.append_assoc]
      exact itemText_append (by simp [hcomma, comma_not_mem_itemText]) (itemText_itemRest after)
    simp [hafter, htext]
  · simp [hcomma, hafter, strchr_zero_holds h, itemText_eq_self hafter]

/-- `upsert_key` of a key that is not in the store: refused, or appended behind a comma. -/
theorem upsertKey_absent (val : CStr) (h : Holds buf content) (hbuf : buf.length = nvsSize)
    (hkey : ¬ badKey key) (hregion : initializeFlash false true region = some (.ok, region))
    (hcut : splitFirst (keySearch key) content = none) :
    ∃ rest, upsertKey key val region buf =
      if (newItem key val).length + content.length + 1 ≤ nvsSize - 1 then
        some (.ok, region, content ++ comma :: newItem key val ++ 0 :: rest)
      else some (.flashmemsize, region, buf) := by
  have hfind := strstr_holds h (keySearch_ne_nil key) (keySearch_nul_free key)
  rw [hcut, Option.map_none] at hfind
  have hitem := newItem_length_lt key val
  have hlen := h.length_lt
  have hsize : sizeT ((keySearch key).length + (escChars val.bytes).length + content.length + 1) =
      (newItem key val).length + content.length + 1 := by
    have hsum : (newItem key val).length =
        (keySearch key).length + (escChars val.bytes).length := by
      simp [newItem]
    rw [hbuf] at hlen
    unfold sizeT
    unfold nvsSize at hlen
    omega
  unfold upsertKey
  simp only [hkey, if_false, hregion, hfind, strlen_holds h, strchr_zero_holds h, bind,
    Option.bind_some, hsize]
  by_cases hfits : (newItem key val).length + content.length + 1 ≤ nvsSize - 1
  · obtain ⟨rest, rfl, _⟩ := h
    -- the old terminator becomes the comma, and the item goes over the bytes behind it
    have hroom : (newItem key val).length + 1 ≤ rest.length := by
      simp only [List.length_append, List.length_cons] at hbuf
      unfold nvsSize at hbuf hfits
      omega
    have hcomma := memcpy_append content [0] rest [comma] rfl
    have hcopy := memcpy_append (content ++ [comma]) (rest.take ((newItem key val).length + 1))
      (rest.drop ((newItem key val).length + 1)) (newItem key val ++ [0])
      (by simp [hroom])
    simp only [List.append_assoc, List.take_append_drop, List.cons_append, List.nil_append,
      List.length_append, List.length_cons, List.length_nil, Nat.zero_add] at hcomma hcopy
    refine ⟨rest.drop ((newItem key val).length + 1), ?_⟩
    rw [if_neg (Nat.not_lt.mpr hfits), if_pos hfits, hcomma, Option.bind_some,
      show keySearch key ++ escChars val.bytes = newItem key val from rfl, hcopy, Option.bind_some]
    simp [pure]
  · exact ⟨[], by rw [if_pos (Nat.lt_of_not_le hfits), if_neg hfits]; rfl⟩

/-- `upsert_key` of a key that is in the store splices, and drops the result code of `splice`. -/
theorem upsertKey_present (val : CStr) {before after : List UInt8} (h : Holds buf content)
    (hkey : ¬ badKey key) (hregion : initializeFlash false true region = some (.ok, region))
    (hcut : splitFirst (keySearch key) content = some (before, after)) :
    upsertKey key val region buf =
      (splice buf before.length (before ++ (keySearch key ++ itemText after)).length
        (newItem key val)).map fun result ↦ (.ok, region, result.2) := by
  have hfind := strstr_holds h (keySearch_ne_nil key) (keySearch_nul_free key)
  rw [hcut, Option.map_some] at hfind
  have hstop := itemEnd_eq hkey (splitFirst_eq hcut ▸ h)
  unfold upsertKey
  simp only [hkey, if_false, hregion, hfind, bind, Option.bind_some]
  have hmap : ∀ stop, ((splice buf before.length stop (newItem key val)).bind
      fun result ↦ (pure (DtErr.ok, region, result.snd) : Option _)) =
      (splice buf before.length stop (newItem key val)).map
        fun result ↦ (.ok, region, result.2) := fun stop ↦ by
    cases splice buf before.length stop (newItem key val) <;> rfl
  cases hnext : getNextItem (buf.drop before.length) with
  | none => simp [hnext] at hstop
  | some found =>
      rw [hnext, Option.bind_some] at hstop
      cases found with
      | some next =>
          simp only [Option.some.injEq] at hstop
          simp only [Option.bind_some, pure, hstop]
          exact hmap _
      | none =>
          obtain ⟨found, hfound, hend⟩ := Option.bind_eq_some_iff.mp hstop
          simp only [Option.bind_some, hfound, hend]
          exact hmap _

/-! ### The result of an upsert -/

/-- A refused append leaves the buffer as it was. -/
theorem upsertKey_full (h : Holds buf content) (hbuf : buf.length = nvsSize) (hkey : ¬ badKey key)
    (hregion : initializeFlash false true region = some (.ok, region))
    (hstored : stored content key val = none) :
    upsertKey key val region buf = some (.flashmemsize, region, buf) := by
  obtain ⟨hcut, hsize⟩ := stored_eq_none hstored
  obtain ⟨_, heq⟩ := upsertKey_absent val h hbuf hkey hregion hcut
  rw [heq, if_neg (Nat.not_le_of_lt hsize)]

/-- The text of an item between what is in front of its key and what is behind it. -/
theorem holds_item {before after : List UInt8} (h : Holds buf content)
    (hcut : splitFirst (keySearch key) content = some (before, after)) :
    Holds buf (before ++ (keySearch key ++ itemText after) ++ itemRest after) := by
  rwa [← List.append_assoc before, List.append_assoc, itemText_append_itemRest,
    ← splitFirst_eq hcut]

/-- An upsert that returns `DT_ERR_OK` with a string that fits leaves it in the buffer. -/
theorem upsertKey_stored {final : List UInt8} (h : Holds buf content)
    (hbuf : buf.length = nvsSize) (hkey : ¬ badKey key)
    (hregion : initializeFlash false true region = some (.ok, region))
    (hstored : stored content key val = some final) (hfits : final.length < nvsSize) :
    ∃ buf', upsertKey key val region buf = some (.ok, region, buf') ∧
      buf'.length = nvsSize ∧ Holds buf' final := by
  rcases stored_eq_some hstored with ⟨hcut, hroom, rfl⟩ |
    ⟨before, after, hcut, ⟨hsize, rfl⟩ | ⟨hsize, rfl⟩⟩
  · obtain ⟨rest, hrun⟩ := upsertKey_absent val h hbuf hkey hregion hcut
    rw [if_pos hroom] at hrun
    refine ⟨_, hrun, upsertKey_length hbuf hrun, holds_append ?_⟩
    simp [h.nul_free, newItem_nul_free, comma_ne_zero.symm]
  · have hitem := holds_item h hcut
    have hrun := upsertKey_present val h hkey hregion hcut
    rw [splice_accepted hitem hbuf (newItem_nul_free key val) hsize hfits] at hrun
    refine ⟨_, hrun, upsertKey_length hbuf hrun, holds_replicate _ ?_ (by omega)⟩
    have hnul := hitem.nul_free
    simp only [List.mem_append, not_or] at hnul ⊢
    exact ⟨⟨hnul.1.1, newItem_nul_free key val⟩, hnul.2⟩
  · have hrun := upsertKey_present val h hkey hregion hcut
    rw [splice_refused (holds_item h hcut) hbuf (newItem_length_lt key val) hsize] at hrun
    exact ⟨buf, hrun, hbuf, h⟩

/-- An upsert whose string does not fit runs out of the buffer or fills it without a terminator. -/
theorem upsertKey_overrun {final : List UInt8} (h : Holds buf content)
    (hbuf : buf.length = nvsSize) (hkey : ¬ badKey key)
    (hregion : initializeFlash false true region = some (.ok, region))
    (hstored : stored content key val = some final) (hover : nvsSize ≤ final.length)
    {err : DtErr} {region' : Region} {buf' : List UInt8}
    (hrun : upsertKey key val region buf = some (err, region', buf')) :
    err = .ok ∧ 0 ∉ buf' := by
  rcases stored_eq_some hstored with ⟨_, hroom, rfl⟩ |
    ⟨before, after, hcut, ⟨hsize, rfl⟩ | ⟨_, rfl⟩⟩
  · simp only [List.length_append, List.length_cons] at hover
    omega
  · rw [upsertKey_present val h hkey hregion hcut] at hrun
    obtain ⟨⟨_, _⟩, hsplice, hresult⟩ := Option.map_eq_some_iff.mp hrun
    simp only [Prod.mk.injEq] at hresult
    refine ⟨hresult.1.symm, ?_⟩
    rw [← hresult.2.2]
    exact splice_overrun (holds_item h hcut) hbuf (newItem_nul_free key val) hsize hover hsplice
  · have := h.length_lt
    omega

end Upsert

end DirtieNode.Flashmem
