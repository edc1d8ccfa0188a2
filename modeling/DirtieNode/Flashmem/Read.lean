import DirtieNode.Flashmem.Image

/-!
# Reading a value back

`unescape` is what the in-place loop of `read` computes: every backslash goes, and the byte behind
it stays. It undoes `escChars`, but `get_val_end` hands it the text up to the first comma, and a
comma in the value is still there behind its backslash. `read_found` is the specification of
`read`, and `round_trip_iff` says when it returns what `write` was given.
-/

namespace DirtieNode.Flashmem

open CString Transition

/-! ## Escapes -/

/-- The text with its escapes removed. A backslash at the end goes. -/
def unescape : List UInt8 → List UInt8
  | [] => []
  | [b] => if b = backslash then [] else [b]
  | b :: c :: rest =>
      if b = backslash then c :: unescape rest else b :: unescape (c :: rest)

/-- A byte that is no backslash stays. -/
theorem unescape_cons_of_ne {b : UInt8} (hb : b ≠ backslash) (rest : List UInt8) :
    unescape (b :: rest) = b :: unescape rest := by
  cases rest <;> simp [unescape, hb]

/-- Removing the escapes undoes `esc_chars`. -/
theorem unescape_escChars (val : List UInt8) : unescape (escChars val) = val := by
  induction val with
  | nil => rfl
  | cons c rest ih =>
      unfold escChars
      split
      · simp [unescape, ih]
      · rename_i hplain
        have hc : c ≠ backslash := fun heq ↦ hplain (by simp [heq, isSpecial])
        rw [unescape_cons_of_ne hc, ih]

/-- Removing the backslashes adds no byte. -/
theorem mem_of_mem_unescape {b : UInt8} {s : List UInt8} (h : b ∈ unescape s) : b ∈ s := by
  fun_induction unescape s <;> simp_all
  all_goals tauto

/-- Removing the backslashes makes no text longer. -/
theorem unescape_length_le (s : List UInt8) : (unescape s).length ≤ s.length := by
  fun_induction unescape s <;> simp_all
  omega

/-- Escaping keeps the commas. -/
theorem comma_mem_escChars {val : List UInt8} : comma ∈ escChars val ↔ comma ∈ val := by
  induction val with
  | nil => simp [escChars]
  | cons c rest ih =>
      unfold escChars
      split <;> simp [ih]

/-- What `read` makes of a freshly written item: the value up to its first comma. -/
theorem unescape_itemText (val : List UInt8) {rest : List UInt8} (hrest : itemText rest = []) :
    unescape (itemText (escChars val ++ rest)) = itemText val := by
  induction val with
  | nil =>
      rw [escChars, List.nil_append, hrest]
      rfl
  | cons c val ih =>
      unfold itemText at ih ⊢
      unfold escChars
      split
      · by_cases hc : c = comma
        · simp [hc, unescape]
        · simp [hc, unescape, ih]
      · rename_i hplain
        have hcomma : c ≠ comma := fun heq ↦ hplain (by simp [heq, isSpecial])
        have hslash : c ≠ backslash := fun heq ↦ hplain (by simp [heq, isSpecial])
        simp [hcomma, unescape_cons_of_ne hslash, ih]

/-! ## The loops -/

/-- The escape handling of `get_val_end` has no effect: it stops at the first comma, whether a
backslash is in front of it or not. -/
theorem valEndLoop_eq (s : List UInt8) (i : Nat) :
    valEndLoop s i = if comma ∈ s then some (i + (itemText s).length) else none := by
  unfold itemText
  fun_induction valEndLoop s i with
  | case1 => rfl
  | case2 i => simp
  | case3 i b hb => simp [Ne.symm hb]
  | case4 i rest =>
      -- the index moves from the backslash onto the comma before the test
      simp
  | case5 i c rest hc ih =>
      simp only [ih, List.mem_cons, comma_ne_backslash, Ne.symm hc, false_or]
      split <;> simp [hc]
      omega
  | case6 i c rest hb => simp
  | case7 i b c rest hb hcomma ih =>
      simp only [ih, List.mem_cons, Ne.symm hcomma, false_or]
      split <;> simp [hcomma]
      omega

/-- `get_val_end` stops at the end of the item's text. -/
theorem getValEnd_holds {mem s : List UInt8} (h : Holds mem s) :
    getValEnd mem = some (.ok, some (itemText s).length) := by
  unfold getValEnd
  simp only [strlen_holds h, h.take_eq, valEndLoop_eq, strchr_zero_holds h, bind,
    Option.bind_some]
  by_cases hcomma : comma ∈ s
  · simp [hcomma, pure]
  · simp [hcomma, itemText_eq_self hcomma, pure]

section Unescape

variable {pre rest post : List UInt8} {b : UInt8} {fuel : Nat}

/-- The loop goes past a byte that is no backslash. -/
theorem unescapeLoop_plain (hb : b ≠ backslash) :
    unescapeLoop (fuel + 1) (pre ++ b :: rest ++ 0 :: post) pre.length (pre ++ b :: rest).length =
      unescapeLoop fuel (pre ++ [b] ++ rest ++ 0 :: post) (pre ++ [b]).length
        (pre ++ [b] ++ rest).length := by
  have hget : (pre ++ b :: rest ++ 0 :: post)[pre.length]? = some b := by simp
  rw [unescapeLoop, if_pos (by simp), hget]
  simp [hb]

/-- A backslash is overwritten by moving the rest of the string, with its terminator, to the left.
The old terminator stays behind. -/
theorem unescapeLoop_backslash (hrest : 0 ∉ rest) :
    unescapeLoop (fuel + 1) (pre ++ backslash :: rest ++ 0 :: post) pre.length
        (pre ++ backslash :: rest).length =
      unescapeLoop fuel (pre ++ rest ++ 0 :: 0 :: post) (pre.length + 1) (pre ++ rest).length := by
  have hget : (pre ++ backslash :: rest ++ 0 :: post)[pre.length]? = some backslash := by simp
  have hdrop : (pre ++ backslash :: rest ++ 0 :: post).drop (pre.length + 1) =
      rest ++ 0 :: post := by
    rw [List.append_assoc, List.drop_length_add_append]
    rfl
  have hlen : strlen (rest ++ 0 :: post) = some rest.length := strlen_holds (holds_append hrest)
  have hload : load (pre ++ backslash :: rest ++ 0 :: post) (pre.length + 1) (rest.length + 1) =
      some (rest ++ [0]) := by
    rw [load_eq_some (by simp; omega), hdrop, List.take_length_add_append]
    rfl
  have hcopy := memcpy_append pre (backslash :: rest) (0 :: post) (rest ++ [0]) (by simp)
  rw [unescapeLoop, if_pos (by simp), hget]
  simp only [bind, Option.bind_some, if_true, hdrop, hlen, hload, hcopy, List.length_append,
    List.length_cons]
  simp

/-- The loop of `read` replaces the text by its unescaped form and leaves terminators behind it. -/
theorem unescapeLoop_eq (pre post : List UInt8) {s : List UInt8} (hs : 0 ∉ s) (extra : Nat) :
    unescapeLoop (extra + s.length + 1) (pre ++ s ++ 0 :: post) pre.length (pre ++ s).length =
      some (pre ++ unescape s ++
        List.replicate (s.length + 1 - (unescape s).length) 0 ++ post) := by
  fun_induction unescape s generalizing extra pre post with
  | case1 => simp [unescapeLoop]
  | case2 =>
      -- a backslash at the end: the loop stops one byte behind the terminator
      rw [unescapeLoop_backslash (by simp), List.length_singleton, unescapeLoop,
        if_neg (by simp)]
      simp [List.replicate_succ]
  | case3 b hb =>
      rw [unescapeLoop_plain hb]
      simp [unescapeLoop]
  | case4 c rest ih =>
      have hrest : 0 ∉ rest := fun hmem ↦ hs (by simp [hmem])
      have hc : 0 ∉ c :: rest := fun hmem ↦ hs (List.mem_cons_of_mem _ hmem)
      have hle := unescape_length_le rest
      have hmoved := ih (pre ++ [c]) (0 :: post) hrest (extra + 1)
      have hzeros : (backslash :: c :: rest).length + 1 - (c :: unescape rest).length =
          rest.length + 1 - (unescape rest).length + 1 := by
        simp only [List.length_cons]
        omega
      have hfuel : extra + 1 + rest.length + 1 = extra + (rest.length + 2) := by omega
      rw [hfuel] at hmoved
      rw [unescapeLoop_backslash hc, hzeros, List.replicate_succ']
      simpa [Nat.add_right_comm, Nat.add_assoc] using hmoved
  | case5 b c rest hb ih =>
      have hrest : 0 ∉ c :: rest := fun hmem ↦ hs (List.mem_cons_of_mem _ hmem)
      have hmoved := ih (pre ++ [b]) post hrest extra
      rw [List.length_cons, ← Nat.add_assoc, unescapeLoop_plain hb, hmoved]
      simp

end Unescape

/-! ## `read` -/

/-- The output object after `read` has put the value of an item's text at an offset: the rest of
the bytes that the text took are terminators. -/
def restored (out : List UInt8) (outVal : Nat) (text : List UInt8) : List UInt8 :=
  out.take outVal ++ unescape text ++
    List.replicate (text.length + 1 - (unescape text).length) 0 ++
    out.drop (outVal + text.length + 1)

section Restored

variable {out text : List UInt8} {outVal : Nat}

/-- The text's place ends behind the terminator that `read` has put there. -/
theorem restored_front_length (h : outVal + text.length < out.length) :
    (out.take outVal ++ unescape text ++
      List.replicate (text.length + 1 - (unescape text).length) 0).length =
        outVal + text.length + 1 := by
  have hle := unescape_length_le text
  simp only [List.length_append, List.length_take, List.length_replicate]
  omega

/-- The output object keeps its size. -/
theorem restored_length (h : outVal + text.length < out.length) :
    (restored out outVal text).length = out.length := by
  rw [restored, List.length_append, restored_front_length h, List.length_drop]
  omega

/-- Only the bytes from the offset up to the terminator change, and the terminator is there. -/
theorem restored_getElem? (h : outVal + text.length < out.length) {i : Nat}
    (hi : i < outVal ∨ outVal + text.length ≤ i) :
    (restored out outVal text)[i]? = if i = outVal + text.length then some 0 else out[i]? := by
  have hle := unescape_length_le text
  have hcut : (out.take outVal).length = outVal := by
    rw [List.length_take]
    omega
  have hfront := restored_front_length h
  have hvalue : (out.take outVal ++ unescape text).length = outVal + (unescape text).length := by
    rw [List.length_append, hcut]
  unfold restored
  rcases hi with hbefore | hbehind
  · rw [if_neg (by omega), List.append_assoc, List.append_assoc,
      List.getElem?_append_left (by omega), List.getElem?_take, if_pos hbefore]
  · split
    · rw [List.getElem?_append_left (by omega), List.getElem?_append_right (by omega), hvalue,
        List.getElem?_replicate, if_pos (by omega)]
    · rw [List.getElem?_append_right (by omega), hfront, List.getElem?_drop,
        Nat.add_sub_cancel' (by omega)]

/-- A text without a terminator has none without its backslashes. -/
theorem unescape_nul_free (h : 0 ∉ text) : 0 ∉ unescape text :=
  mt mem_of_mem_unescape h

/-- The value is at the offset it was read to. -/
theorem restored_holds (out : List UInt8) (outVal : Nat) (htext : 0 ∉ text)
    (h : outVal + text.length < out.length) :
    Holds ((restored out outVal text).drop outVal) (unescape text) := by
  have hle := unescape_length_le text
  have htake : (out.take outVal).length = outVal := by simp; omega
  obtain ⟨count, hcount⟩ := Nat.exists_eq_add_of_le hle
  unfold restored
  conv => arg 1; arg 1; rw [← htake]
  rw [List.append_assoc, List.append_assoc, List.drop_left, hcount, Nat.add_assoc,
    Nat.add_sub_cancel_left, List.replicate_succ, List.cons_append]
  exact holds_append (unescape_nul_free htext)

end Restored

section Copy

variable {out text : List UInt8} {outVal : Nat}

/-- The first copy of `read` puts the text into the output. -/
theorem copy_text (h : outVal + text.length < out.length) :
    memcpy out outVal text = some (out.take outVal ++ text ++ out.drop (outVal + text.length)) :=
  memcpy_eq_some (Nat.le_of_lt h)

/-- The terminator goes behind the text. -/
theorem terminate_text (h : outVal + text.length < out.length) :
    memcpy (out.take outVal ++ text ++ out.drop (outVal + text.length)) (outVal + text.length) [0] =
      some (out.take outVal ++ text ++ 0 :: out.drop (outVal + text.length + 1)) := by
  have hlen : (out.take outVal ++ text).length = outVal + text.length := by
    simp only [List.length_append, List.length_take]
    omega
  have hcopy := memcpy_append (out.take outVal ++ text) [out[outVal + text.length]]
    (out.drop (outVal + text.length + 1)) [0] rfl
  rw [hlen] at hcopy
  rw [List.drop_eq_getElem_cons h]
  simpa using hcopy

/-- Without room for the text and its terminator one of the two copies leaves the object. -/
theorem copy_text_eq_none (h : out.length ≤ outVal + text.length) :
    ((memcpy out outVal text).bind fun out ↦ memcpy out (outVal + text.length) [0]) = none := by
  cases hcopy : memcpy out outVal text with
  | none => rfl
  | some copied =>
      have hlen := memcpy_length hcopy
      exact memcpy_eq_none_iff.mpr (by simp; omega)

end Copy

section Read

variable {content : List UInt8} {key : CStr} {region : Region} {out : List UInt8} {outVal : Nat}

/-- A key that is not found leaves the output as it was. -/
theorem read_absent (h : Holds region.bytes content) (hkey : ¬ badKey key)
    (hcut : splitFirst (keySearch key) content = none) :
    read key region out outVal = some (.keynotfound, out) := by
  have hfind := strstr_holds h (keySearch_ne_nil key) (keySearch_nul_free key)
  rw [hcut, Option.map_none] at hfind
  simp [read, hkey, hfind]

/-- `read` of a key in the store copies the text, then removes the escapes. It needs room for the
text, not for the value. -/
theorem read_found (out : List UInt8) (outVal : Nat) {before after : List UInt8}
    (h : Holds region.bytes content)
    (hkey : ¬ badKey key) (hcut : splitFirst (keySearch key) content = some (before, after)) :
    read key region out outVal =
      if outVal + (itemText after).length < out.length then
        some (.ok, restored out outVal (itemText after))
      else none := by
  have hfind := strstr_holds h (keySearch_ne_nil key) (keySearch_nul_free key)
  rw [hcut, Option.map_some] at hfind
  have heq := splitFirst_eq hcut
  have hafter : Holds (region.bytes.drop (before.length + key.bytes.length + 1)) after := by
    have hdrop := Holds.drop (p := before ++ keySearch key) (heq ▸ h)
    simpa [keySearch, Nat.add_assoc] using hdrop
  have hequals : strchr (region.bytes.drop before.length) equals =
      some (some key.bytes.length) := by
    have hdrop : Holds (region.bytes.drop before.length) (keySearch key ++ after) :=
      Holds.drop (by rwa [← List.append_assoc, ← heq])
    obtain ⟨rest, hrest, _⟩ := hdrop
    have hfree : equals ∉ key.bytes := fun hmem ↦ hkey (.inr (.inr hmem))
    rw [hrest, keySearch, List.append_assoc, List.append_assoc, List.singleton_append]
    exact strchr_append hfree key.nul_free
  have hload : load region.bytes (before.length + key.bytes.length + 1) (itemText after).length =
      some (itemText after) := by
    have hlen := hafter.length_lt
    have htext := (itemText_prefix_self after).length_le
    obtain ⟨rest, hrest, _⟩ := hafter
    rw [List.length_drop] at hlen
    rw [load_eq_some (by omega), hrest]
    rw [List.take_append_of_le_length htext,
      ← List.prefix_iff_eq_take.mp (itemText_prefix_self after)]
  have hnul : 0 ∉ itemText after := fun hmem ↦
    hafter.nul_free ((itemText_prefix_self after).subset hmem)
  unfold read
  simp only [hkey, if_false, hfind, hequals, getValEnd_holds hafter, hload, bind,
    Option.bind_some]
  by_cases hroom : outVal + (itemText after).length < out.length
  · rw [if_pos hroom, copy_text hroom, Option.bind_some, terminate_text hroom,
      Option.bind_some]
    have hholds : Holds (itemText after ++ 0 :: out.drop (outVal + (itemText after).length + 1))
        (itemText after) := holds_append hnul
    have htake : (out.take outVal).length = outVal := by simp; omega
    have hdrop : (out.take outVal ++ itemText after ++ 0 ::
        out.drop (outVal + (itemText after).length + 1)).drop outVal =
        itemText after ++ 0 :: out.drop (outVal + (itemText after).length + 1) := by
      conv => lhs; arg 1; rw [← htake]
      rw [List.append_assoc, List.drop_left]
    have hloop := unescapeLoop_eq (out.take outVal)
      (out.drop (outVal + (itemText after).length + 1)) hnul 0
    rw [htake, List.length_append, htake, Nat.zero_add] at hloop
    rw [hdrop, strlen_holds hholds, Option.bind_some, hloop]
    rfl
  · rw [if_neg hroom, ← Option.bind_assoc, copy_text_eq_none (Nat.not_lt.mp hroom)]
    rfl

/-- A region that has lost its terminator cannot be read. -/
theorem read_unterminated (h : 0 ∉ region.bytes) (hkey : ¬ badKey key) :
    read key region out outVal = none := by
  have hlen : ∀ offset, strlen (region.bytes.drop offset) = none := fun offset ↦
    strlen_eq_none_iff.mpr (mt (List.mem_of_mem_drop ·) h)
  unfold read
  rw [if_neg hkey]
  cases hfind : strstr region.bytes (keySearch key) with
  | none => rfl
  | some found =>
      cases found with
      | none => exact absurd (zero_mem_of_strstr_null hfind) h
      | some keyLoc =>
          cases hass : strchr (region.bytes.drop keyLoc) equals with
          | none => simp [hass]
          | some found =>
              cases found with
              | none => exact absurd (List.mem_of_mem_drop (zero_mem_of_strchr_null hass)) h
              | some ass => simp [hass, getValEnd, hlen]

/-! ## The text under a key -/

/-- The text of the first item whose front part ends in `key=`, which is the one that `read` and
`upsert_key` find. -/
def lookup (content : List UInt8) (key : CStr) : Option (List UInt8) :=
  (splitFirst (keySearch key) content).map fun cut ↦ itemText cut.2

/-- The first occurrence of a key is the one that counts. -/
theorem lookup_eq_some {before after : List UInt8}
    (h : splitFirst (keySearch key) content = some (before, after)) :
    lookup content key = some (itemText after) := by
  rw [lookup, h, Option.map_some]

/-- A key has no text when it is not found. -/
theorem lookup_eq_none_iff :
    lookup content key = none ↔ splitFirst (keySearch key) content = none :=
  Option.map_eq_none_iff

/-- The text under a key is part of the store. -/
theorem lookup_subset {text : List UInt8} (h : lookup content key = some text) :
    text ⊆ content := by
  obtain ⟨⟨before, after⟩, hcut, rfl⟩ := Option.map_eq_some_iff.mp h
  rw [splitFirst_eq hcut]
  exact List.Subset.trans (itemText_prefix_self after).subset (List.subset_append_right _ _)

/-- `read` returns a value exactly when the text under the key stands for it and fits the output. -/
theorem read_eq_iff {value : List UInt8} (h : Holds region.bytes content) (hkey : ¬ badKey key) :
    (∃ out', read key region out 0 = some (.ok, out') ∧ get out' = some value) ↔
      ∃ text, lookup content key = some text ∧ text.length < out.length ∧
        unescape text = value := by
  unfold lookup
  cases hcut : splitFirst (keySearch key) content with
  | none => simp [read_absent h hkey hcut]
  | some cut =>
      obtain ⟨before, after⟩ := cut
      have hnul : 0 ∉ itemText after := fun hmem ↦
        h.nul_free (lookup_subset (lookup_eq_some hcut) hmem)
      rw [read_found _ _ h hkey hcut, Nat.zero_add]
      by_cases hroom : (itemText after).length < out.length
      · have hholds := restored_holds out 0 hnul (by simpa using hroom)
        rw [List.drop_zero] at hholds
        simp [hroom, get_holds hholds]
      · simp [hroom]

end Read

/-! ## Round trips -/

section RoundTrip

variable {content final : List UInt8} {key val : CStr} {region : Region} {out : List UInt8}

/-- `upsert_key` of a key that is not in the store finds no room. -/
def AppendRefused (content : List UInt8) (key val : CStr) : Prop :=
  lookup content key = none ∧ nvsSize - 1 < itemSize key val + content.length + 1

/-- `splice` refuses the new item, by a size test that depends on the place of the old one. -/
def SpliceRefused (content : List UInt8) (key val : CStr) : Prop :=
  ∃ before after, splitFirst (keySearch key) content = some (before, after) ∧
    nvsSize < 2 * before.length + (key.bytes.length + 1 + (itemText after).length) +
      itemSize key val

instance (content : List UInt8) (key val : CStr) : Decidable (SpliceRefused content key val) :=
  match h : splitFirst (keySearch key) content with
  | none => .isFalse (by simp [SpliceRefused, h])
  | some (before, after) =>
      decidable_of_iff (nvsSize < 2 * before.length +
        (key.bytes.length + 1 + (itemText after).length) + itemSize key val)
        (by simp [SpliceRefused, h])

instance (content : List UInt8) (key val : CStr) : Decidable (AppendRefused content key val) :=
  inferInstanceAs (Decidable (_ ∧ _))

/-- An upsert has no result when its append is refused. -/
theorem stored_eq_none_iff : stored content key val = none ↔ AppendRefused content key val := by
  unfold stored AppendRefused lookup
  cases splitFirst (keySearch key) content with
  | none => simp [newItem_length]
  | some cut =>
      dsimp only
      split <;> simp

/-- A refused `splice` leaves the store as it was. -/
theorem stored_of_spliceRefused (h : SpliceRefused content key val) :
    stored content key val = some content := by
  obtain ⟨before, after, hcut, hsize⟩ := h
  rw [← keySearch_append_length, ← newItem_length] at hsize
  simp only [stored, hcut, if_neg (Nat.not_le_of_lt hsize)]

/-- The result of a refused `splice` is the old store. -/
theorem eq_of_spliceRefused (h : SpliceRefused content key val)
    (hstored : stored content key val = some final) : content = final :=
  Option.some.inj ((stored_of_spliceRefused h).symm.trans hstored)

/-- An upsert that is not refused appends the item or puts it in place of the old one. -/
theorem stored_cases (hstored : stored content key val = some final)
    (hsplice : ¬ SpliceRefused content key val) :
    splitFirst (keySearch key) content = none ∧ final = content ++ comma :: newItem key val ∨
      ∃ before after, splitFirst (keySearch key) content = some (before, after) ∧
        final = before ++ newItem key val ++ itemRest after := by
  rcases stored_eq_some hstored with ⟨hcut, _, hfinal⟩ |
    ⟨before, after, hcut, ⟨_, hfinal⟩ | ⟨hsize, _⟩⟩
  · exact .inl ⟨hcut, hfinal⟩
  · exact .inr ⟨before, after, hcut, hfinal⟩
  · rw [keySearch_append_length, newItem_length] at hsize
    exact absurd ⟨before, after, hcut, hsize⟩ hsplice

/-- An upsert that is not refused puts the escaped value behind the key. -/
theorem lookup_stored (hkey : ¬ badKey key) (hstored : stored content key val = some final)
    (hsplice : ¬ SpliceRefused content key val) :
    ∃ rest, itemText rest = [] ∧
      lookup final key = some (itemText (escChars val.bytes ++ rest)) := by
  have hne := keySearch_ne_nil key
  rcases stored_cases hstored hsplice with ⟨hcut, rfl⟩ | ⟨before, after, hcut, rfl⟩
  · have hnew := splitFirst_separator (comma_not_mem_keySearch hkey) hne content
      (newItem key val)
    rw [hcut, newItem, splitFirst_self _ _ hne] at hnew
    exact ⟨[], rfl, by simp [lookup, newItem, hnew]⟩
  · have hnew := splitFirst_append hne (splitFirst_eq hcut ▸ hcut)
      (escChars val.bytes ++ itemRest after)
    refine ⟨itemRest after, itemText_itemRest after, ?_⟩
    simp only [newItem, List.append_assoc] at hnew ⊢
    exact lookup_eq_some hnew

/-- The rule for a statement about what `write` returns and leaves: it holds of a refusal, it does
not hold of a region without a terminator, and of a region with the new string it says `cond` about
the old one. -/
theorem write_post_iff {post : DtErr → Region → Prop} {cond : List UInt8 → Prop}
    (hkey : ¬ badKey key) (hval : val.bytes.length ≤ maxValSize)
    (hrefusal : post .flashmemsize region)
    (hlost : ∀ content region', Holds region.bytes content → 0 ∉ region'.bytes → ¬ post .ok region')
    (hfinal : ∀ content final region', Holds region.bytes content →
      stored content key val = some final → Holds region'.bytes final →
        (post .ok region' ↔ cond content)) :
    (∃ err region', write key val region = some (err, region') ∧ post err region') ↔
      ∃ content, get region.bytes = some content ∧
        (AppendRefused content key val ∨
          storedLength content key val < nvsSize ∧ storedLength content key val % pageSize ≠ 0 ∧
            cond content) := by
  by_cases hmem : 0 ∈ region.bytes
  · obtain ⟨content, hcontent⟩ := exists_holds hmem
    simp only [get_holds hcontent, Option.some.injEq, exists_eq_left']
    cases hstored : stored content key val with
    | none =>
        have hrefused := stored_eq_none_iff.mp hstored
        simp [write_full hcontent hkey hval hstored, hrefused, hrefusal]
    | some final =>
        have hroom : ¬ AppendRefused content key val := by
          rw [← stored_eq_none_iff, hstored]
          simp
        rw [← stored_length hstored]
        by_cases hfits : final.length < nvsSize
        · obtain ⟨_, region', _, _, hwrite, hpart, hfull⟩ :=
            write_stored hcontent hkey hval hstored hfits
          by_cases hpage : final.length % pageSize = 0
          · simp [hwrite, hroom, hpage, hlost content region' hcontent (hfull hpage)]
          · simp [hwrite, hroom, hpage, hfits,
              hfinal content final region' hcontent hstored (hpart hpage)]
        · simp [write_overrun hcontent hkey hval hstored (Nat.not_lt.mp hfits), hroom, hfits]
  · simp [CString.get_eq_none_iff.mpr hmem, write_unterminated hmem hkey hval]

/-- The claim of the store's interface: after `write` has returned `DT_ERR_OK`, `read` of the same
key returns `DT_ERR_OK` and the value. -/
def RoundTrips (region : Region) (key val : CStr) (out : List UInt8) : Prop :=
  ∃ err region', write key val region = some (err, region') ∧
    (err = .ok → ∃ out', read key region' out 0 = some (.ok, out') ∧ get out' = some val.bytes)

/-- When it is kept: the append is refused, or the new string has room and ends inside a page, and
either the item is written, has no comma in its value and fits the output escaped, or the `splice`
is refused over an old item that stands for the same value. -/
def RoundTripWhen (region : Region) (key val : CStr) (out : List UInt8) : Prop :=
  ∃ content, get region.bytes = some content ∧
    (AppendRefused content key val ∨
      storedLength content key val < nvsSize ∧ storedLength content key val % pageSize ≠ 0 ∧
        (¬ SpliceRefused content key val ∧ comma ∉ val.bytes ∧ escSize val.bytes ≤ out.length ∨
          SpliceRefused content key val ∧ ∃ text, lookup content key = some text ∧
            text.length < out.length ∧ unescape text = val.bytes))

/-- The new text under the key stands for the value, in terms of the store before the `write`. -/
theorem lookup_stored_iff (hkey : ¬ badKey key) (hstored : stored content key val = some final) :
    (∃ text, lookup final key = some text ∧ text.length < out.length ∧
        unescape text = val.bytes) ↔
      (¬ SpliceRefused content key val ∧ comma ∉ val.bytes ∧ escSize val.bytes ≤ out.length ∨
        SpliceRefused content key val ∧ ∃ text, lookup content key = some text ∧
          text.length < out.length ∧ unescape text = val.bytes) := by
  by_cases hsplice : SpliceRefused content key val
  · obtain rfl : content = final := eq_of_spliceRefused hsplice hstored
    simp [hsplice]
  · obtain ⟨rest, hrest, hlookup⟩ := lookup_stored hkey hstored hsplice
    simp only [hlookup, Option.some.injEq, exists_eq_left', hsplice, not_false_eq_true, true_and,
      false_and, or_false, unescape_itemText val.bytes hrest, itemText_eq_self_iff]
    rw [and_comm]
    refine and_congr_right fun hfree ↦ ?_
    rw [itemText_append (mt comma_mem_escChars.mp hfree) hrest, escSize_eq, Nat.add_one_le_iff]

/-- For every region, so for every one that a sequence of `write` calls leaves behind, for every
key that passes the check, every value up to `MAX_VAL_SIZE` and every output object. -/
theorem round_trip_iff (region : Region) (key val : CStr) (out : List UInt8)
    (hkey : ¬ badKey key) (hval : val.bytes.length ≤ maxValSize) :
    RoundTrips region key val out ↔ RoundTripWhen region key val out := by
  refine write_post_iff hkey hval (by simp) (fun content region' _ hlost hread ↦ ?_)
    fun content final region' _ hstored hfinal ↦ ?_
  · obtain ⟨_, hrun, _⟩ := hread rfl
    simp [read_unterminated hlost hkey] at hrun
  · rw [← lookup_stored_iff hkey hstored, ← read_eq_iff hfinal hkey]
    exact ⟨fun hread ↦ hread rfl, fun hread _ ↦ hread⟩

/-- A new SSID with an escape goes in, in front of the password, and out again. -/
theorem round_trip_replaced : ∃ region : Region,
    Holds region.bytes (lit ",ssid=home,password=a\\=b") ∧
      RoundTrips region (.ofBytes (lit "ssid")) (.ofBytes (lit "x=y")) (List.replicate 16 0) := by
  obtain ⟨_, region, _, _, _, hholds⟩ := two_writes
  refine ⟨region, hholds, (round_trip_iff region (.ofBytes (lit "ssid")) (.ofBytes (lit "x=y"))
    (List.replicate 16 0) (by decide) (by decide)).mpr ⟨_, get_holds hholds, .inr ⟨by decide,
      by decide, .inl ⟨by decide, by decide, by decide⟩⟩⟩⟩

/-- A call of `write`, as a step of the region. -/
def writeCall (region : Region) (item : CStr × CStr) : Option Region :=
  (write item.1 item.2 region).map Prod.snd

/-- A `write` with any result code is a step of the region. -/
theorem writeCall_of_write {key val : CStr} {region region' : Region} {err : DtErr}
    (h : write key val region = some (err, region')) :
    writeCall region (key, val) = some region' := by
  rw [writeCall, h]
  rfl

/-- Reading stops at the escaped comma, even where the output has room for the escaped value. -/
theorem escaped_comma_cut : ¬ ∀ (region : Region) (key val : CStr) (out : List UInt8),
    Reachable writeCall zeroRegion region → ¬ badKey key → val.bytes.length ≤ maxValSize →
    escSize val.bytes ≤ out.length → RoundTrips region key val out := by
  intro hclaim
  let key : CStr := .ofBytes (lit "TestKey")
  let val : CStr := .ofBytes (lit "TestVal\\,=")
  have hstored : stored [] key val = some (comma :: newItem key val) := by decide
  obtain ⟨_, region', _, _, hwrite, hpart, _⟩ :=
    write_stored zeroRegion_holds (by decide) (by decide) hstored
      (by decide)
  obtain ⟨err, other, hother, hread⟩ := hclaim zeroRegion key val (List.replicate 16 0)
    ⟨[], .refl⟩ (by decide) (by decide) (by decide)
  rw [hwrite] at hother
  simp only [Option.some.injEq, Prod.mk.injEq] at hother
  obtain ⟨rfl, rfl⟩ := hother
  obtain ⟨text, hlookup, _, hvalue⟩ :=
    (read_eq_iff (hpart (by decide)) (by decide)).mp (hread rfl)
  have htext : lookup (comma :: newItem key val) key = some (lit "TestVal\\\\\\") := by decide
  obtain rfl := Option.some.inj (htext.symm.trans hlookup)
  exact absurd hvalue (by decide)

end RoundTrip

end DirtieNode.Flashmem
