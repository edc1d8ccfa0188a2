import DirtieNode.Flashmem.Items

/-!
# Which writes another key can see

`read` and `upsert_key` find a key wherever its text ends at an `=`, so a key that ends in another
one is taken for it. `values_stored_iff` says exactly when a `write` of one key changes the value
under another one in a reachable store, and `isolated_iff` adds the ways in which the write itself
can destroy the store.
-/

namespace DirtieNode.Flashmem

open CString Transition

/-! ## Searches across an item -/

/-- An escaped value has a backslash in front of every `=`. -/
theorem not_infix_cons_escChars {c : UInt8} (hc : c ≠ backslash) (b : UInt8) (val : List UInt8) :
    ¬ [c, equals] <:+: b :: escChars val := by
  induction val generalizing b with
  | nil => simp [escChars, List.infix_cons_iff]
  | cons x val ih =>
      have hx := ih x
      unfold escChars
      split
      · simp only [List.infix_cons_iff, List.cons_prefix_cons] at hx ⊢
        simp [hc, hx]
      · rename_i hplain
        have hequals : equals ≠ x := fun heq ↦ hplain (by simp [← heq, isSpecial])
        rw [List.infix_cons_iff]
        simp [List.cons_prefix_cons, hequals, hx]

section Search

variable {key other : CStr} {text rest : List UInt8}

/-- No nonempty key is found in an escaped value. -/
theorem no_key_in_escChars (hkey : ¬ badKey key) (hne : key.bytes ≠ []) (val : List UInt8) :
    ¬ keySearch key <:+: escChars val := by
  intro hoccurs
  obtain ⟨front, c, hlast⟩ := (List.eq_nil_or_concat' key.bytes).resolve_left hne
  have hc : c ≠ backslash := fun heq ↦ hkey (.inl (by simp [hlast, heq]))
  have hend : [c, equals] <:+: keySearch key := ⟨front, [], by simp [keySearch, hlast]⟩
  exact not_infix_cons_escChars hc 0 val ((hend.trans hoccurs).trans (List.suffix_cons _ _).isInfix)

/-- A key is found up to the `=` of another one only where it ends. -/
theorem key_infix_key_iff (hother : ¬ badKey other) :
    keySearch key <:+: keySearch other ↔ key.bytes <:+ other.bytes := by
  constructor
  · rintro ⟨front, back, heq⟩
    have hbytes := congrArg List.dropLast heq
    rw [keySearch, keySearch, List.dropLast_concat] at hbytes
    rcases List.eq_nil_or_concat' back with rfl | ⟨back, b, rfl⟩
    · refine ⟨front, ?_⟩
      rwa [List.append_nil, ← List.append_assoc, List.dropLast_concat] at hbytes
    · -- the `=` that was found would be part of the other key
      rw [← List.append_assoc, List.dropLast_concat] at hbytes
      exact absurd (.inr (.inr (by simp [← hbytes]))) hother
  · rintro ⟨front, heq⟩
    exact ⟨front, [], by simp [keySearch, ← heq]⟩

/-- Behind an `=` up to which the key is not found the search starts afresh. -/
theorem splitFirst_behind_key (hkey : ¬ badKey key) (s u : List UInt8)
    (h : splitFirst (keySearch key) (s ++ [equals]) = none) :
    splitFirst (keySearch key) (s ++ equals :: u) =
      (splitFirst (keySearch key) u).map fun cut ↦ (s ++ equals :: cut.1, cut.2) := by
  refine splitFirst_boundary ?_ s u h
  rw [keySearch, List.dropLast_concat]
  exact fun hmem ↦ hkey (.inr (.inr hmem))

/-- An `=` of a key is not found inside another item, so a tail of the store up to it contains the
whole key. -/
theorem keySearch_suffix {before front tail : List UInt8} (hother : ¬ badKey other)
    (htail : tail ≠ [])
    (heq : front ++ keySearch key ++ tail = before ++ keySearch other) :
    keySearch other <:+ tail := by
  have htail_suffix : tail <:+ before ++ keySearch other := ⟨front ++ keySearch key, heq⟩
  rcases List.suffix_or_suffix_of_suffix (List.suffix_append before (keySearch other))
    htail_suffix with h | ⟨y, hy⟩
  · exact h
  · rcases List.eq_nil_or_concat' y with rfl | ⟨y, b, rfl⟩
    · exact ⟨[], hy.symm⟩
    · -- the other key would contain the `=` of the first one
      have hfront : before ++ (y ++ [b]) = front ++ key.bytes ++ [equals] := by
        rw [← hy, ← List.append_assoc] at heq
        rw [List.append_cancel_right heq.symm, keySearch, List.append_assoc]
      have hb : b = equals := by
        rw [← List.append_assoc] at hfront
        exact (List.append_inj' hfront rfl).2 |> List.head_eq_of_cons_eq
      have hbytes : other.bytes = y ++ [b] ++ tail.dropLast := by
        have := congrArg List.dropLast hy
        rw [keySearch, List.dropLast_concat, List.dropLast_append_of_ne_nil htail] at this
        exact this.symm
      exact absurd (.inr (.inr (by simp [hbytes, hb]))) hother

/-- Behind an `=` up to which the key is not found, the value is one of the rest. -/
theorem lookup_behind_key (hkey : ¬ badKey key) (s u : List UInt8)
    (h : splitFirst (keySearch key) (s ++ [equals]) = none) :
    lookup (s ++ equals :: u) key = lookup u key := by
  simp [lookup, splitFirst_behind_key hkey s u h, Function.comp_def]

/-- A comma in front of the rest does not matter. -/
theorem lookup_comma (hkey : ¬ badKey key) (u : List UInt8) :
    lookup (comma :: u) key = lookup u key := by
  simp [lookup, splitFirst_comma hkey, Function.comp_def]

/-- The key is found behind the store only where it is not in the store. -/
theorem lookup_append_comma (hkey : ¬ badKey key) (s u : List UInt8) :
    lookup (s ++ comma :: u) key = (lookup s key).or (lookup u key) := by
  have hsep := splitFirst_separator (comma_not_mem_keySearch hkey) (keySearch_ne_nil key) s u
  cases hs : splitFirst (keySearch key) s with
  | some cut =>
      rw [hs] at hsep
      rw [lookup_eq_some hsep, lookup_eq_some hs, itemText_append_comma, Option.some_or]
  | none =>
      rw [hs] at hsep
      simp [lookup, hs, hsep, Function.comp_def]

/-- Behind a text without the key the search goes on in the rest of the items. -/
theorem lookup_text_rest (hkey : ¬ badKey key) (htext : ¬ keySearch key <:+: text)
    (hrest : itemText rest = []) : lookup (text ++ rest) key = lookup rest key := by
  have hnone := lookup_eq_none_iff.mpr (splitFirst_eq_none_iff.mpr htext)
  cases rest with
  | nil =>
      rw [List.append_nil, hnone, eq_comm, lookup_eq_none_iff, splitFirst,
        if_neg (keySearch_ne_nil key)]
  | cons b rest =>
      have hb : b = comma := by
        by_contra hb
        simp [itemText, hb] at hrest
      rw [hb, lookup_append_comma hkey, hnone, Option.none_or, lookup_comma hkey]

end Search

/-! ## The value under another key -/

/-- The `write` of one key does not reach the value under the other: a new item does not end in
the other key unless that one is in the store, and an old item is not the one that the other key
finds unless it keeps its value. -/
def Separate (content : List UInt8) (key other val : CStr) : Prop :=
  match splitFirst (keySearch key) content with
  | none => lookup content other ≠ none ∨ ¬ other.bytes <:+ key.bytes
  | some (_, after) =>
      (∀ before, splitFirst (keySearch other) content ≠ some (before, after)) ∨
        unescape (itemText after) = itemText val.bytes

section Values

variable {content final : List UInt8} {key other val : CStr}

/-- Keys of which neither ends in the other one are always apart. -/
theorem separate_of_not_suffix (h : ¬ other.bytes <:+ key.bytes) (h' : ¬ key.bytes <:+ other.bytes)
    (content : List UInt8) (val : CStr) : Separate content key other val := by
  unfold Separate
  cases hcut : splitFirst (keySearch key) content with
  | none => exact .inr h
  | some cut =>
      obtain ⟨front, after⟩ := cut
      refine .inl fun before hother ↦ ?_
      have heq := (splitFirst_eq hcut).symm.trans (splitFirst_eq hother)
      have hfront := List.append_cancel_right heq
      rw [keySearch, keySearch, ← List.append_assoc, ← List.append_assoc] at hfront
      have hkeys := List.append_cancel_right hfront
      rcases List.suffix_or_suffix_of_suffix (List.suffix_append front key.bytes)
        ⟨before, hkeys.symm⟩ with hsuffix | hsuffix
      · exact h' hsuffix
      · exact h hsuffix

/-- A new item behind the store. -/
theorem values_appended_iff (hkey : ¬ badKey key) (hother : ¬ badKey other)
    (hne : other.bytes ≠ []) :
    (lookup (content ++ comma :: newItem key val) other).map unescape =
        (lookup content other).map unescape ↔
      lookup content other ≠ none ∨ ¬ other.bytes <:+ key.bytes := by
  rw [lookup_append_comma hother]
  cases hold : lookup content other with
  | some text => simp
  | none =>
      by_cases hsuffix : other.bytes <:+ key.bytes
      · cases hnew : lookup (newItem key val) other with
        | none =>
            have hoccurs := (key_infix_key_iff hkey).mpr hsuffix
            exact absurd (hoccurs.trans (List.prefix_append _ _).isInfix)
              (splitFirst_eq_none (lookup_eq_none_iff.mp hnew))
        | some text => simp [hsuffix]
      · have hkeys : splitFirst (keySearch other) (key.bytes ++ [equals]) = none :=
          splitFirst_eq_none_iff.mpr (mt (key_infix_key_iff hkey).mp hsuffix)
        have hval := splitFirst_eq_none_iff.mpr (no_key_in_escChars hother hne val.bytes)
        have hnew : lookup (newItem key val) other = none := by
          rw [newItem, keySearch, List.append_assoc, List.singleton_append,
            lookup_behind_key hother _ _ hkeys, lookup_eq_none_iff, hval]
        simp [hnew, hsuffix]

/-- A new text under a key that is in the store. -/
theorem values_replaced_iff {before after : List UInt8} (hkey : ¬ badKey key)
    (hkey_ne : key.bytes ≠ []) (hother : ¬ badKey other) (hne : other.bytes ≠ [])
    (h : Itemized content) (hcut : splitFirst (keySearch key) content = some (before, after)) :
    (lookup (before ++ newItem key val ++ itemRest after) other).map unescape =
        (lookup content other).map unescape ↔
      (∀ before, splitFirst (keySearch other) content ≠ some (before, after)) ∨
        unescape (itemText after) = itemText val.bytes := by
  have heq := splitFirst_eq hcut
  have hfinal : before ++ newItem key val ++ itemRest after =
      before ++ keySearch key ++ (escChars val.bytes ++ itemRest after) := by
    simp [newItem]
  rw [hfinal]
  cases hfront : splitFirst (keySearch other) (before ++ keySearch key) with
  | some cut =>
      obtain ⟨front, tail⟩ := cut
      have hold := splitFirst_append_of_some hfront after
      have hnew := splitFirst_append_of_some hfront (escChars val.bytes ++ itemRest after)
      rw [← heq] at hold
      rw [lookup_eq_some hold, lookup_eq_some hnew]
      by_cases htail : tail = []
      · -- both keys end at the same `=`
        have hvalue := unescape_itemText val.bytes (itemText_itemRest after)
        simp [htail, hold, hvalue, eq_comm]
      · have hcomma : comma ∈ tail := by
          by_contra hfree
          have hsuffix := keySearch_suffix hkey htail (splitFirst_eq hfront).symm
          rw [heq, splitFirst_eq hfront] at h
          exact no_key_in_text hother hne hkey hkey_ne h hfree hsuffix.isInfix
        simp [hold, itemText_append_of_mem hcomma, htail]
  | none =>
      have hcut' : ∀ u, before ++ keySearch key ++ u = before ++ key.bytes ++ equals :: u := by
        simp [keySearch]
      have hnone : splitFirst (keySearch other) (before ++ key.bytes ++ [equals]) = none := by
        rw [← hfront, keySearch, keySearch, List.append_assoc]
      have htext : ¬ keySearch other <:+: itemText after := by
        rw [heq, ← itemText_append_itemRest after, ← List.append_assoc] at h
        exact no_key_in_text hkey hkey_ne hother hne h (comma_not_mem_itemText after)
      have hval := no_key_in_escChars hother hne val.bytes
      have hrest := itemText_itemRest after
      have hold : lookup content other = lookup (itemRest after) other := by
        rw [heq, hcut', lookup_behind_key hother _ _ hnone, ← lookup_text_rest hother htext hrest,
          itemText_append_itemRest]
      have hother_after : ∀ front, splitFirst (keySearch other) content ≠ some (front, after) := by
        intro front hcut_other
        rw [heq, hcut', splitFirst_behind_key hother _ _ hnone,
          Option.map_eq_some_iff] at hcut_other
        obtain ⟨⟨inner, tail⟩, htail, hsame⟩ := hcut_other
        obtain rfl : tail = after := (Prod.mk.inj hsame).2
        have hlen := congrArg List.length (splitFirst_eq htail)
        simp [keySearch] at hlen
        omega
      rw [hcut', lookup_behind_key hother _ _ hnone, lookup_text_rest hother hval hrest, hold]
      simp [hother_after]

/-- When a `write` leaves the value under another key as it was, for a store of a run. -/
theorem values_stored_iff (hkey : ¬ badKey key) (hkey_ne : key.bytes ≠ []) (hother : ¬ badKey other)
    (hne : other.bytes ≠ []) (h : Itemized content)
    (hstored : stored content key val = some final) :
    (lookup final other).map unescape = (lookup content other).map unescape ↔
      SpliceRefused content key val ∨ Separate content key other val := by
  by_cases hsplice : SpliceRefused content key val
  · obtain rfl : content = final := eq_of_spliceRefused hsplice hstored
    simp [hsplice]
  · simp only [hsplice, false_or]
    unfold Separate
    rcases stored_cases hstored hsplice with ⟨hcut, rfl⟩ | ⟨before, after, hcut, rfl⟩
    · rw [hcut]
      exact values_appended_iff hkey hother hne
    · rw [hcut]
      exact values_replaced_iff hkey hkey_ne hother hne h hcut

end Values

/-! ## Outcomes -/

/-- What `read` reports of a key: the result code and the string in the output object. -/
def outcome (key : CStr) (region : Region) (out : List UInt8) :
    Option (DtErr × Option (List UInt8)) :=
  (read key region out 0).map fun result ↦ (result.1, get result.2)

/-- The outcome is the same, for every output object with room for any text. -/
def SameOutcome (key : CStr) (region region' : Region) : Prop :=
  ∀ out : List UInt8, nvsSize ≤ out.length → outcome key region' out = outcome key region out

/-- After a `write` of one key, `read` of the other one has the same outcome as before it. -/
def Isolated (region : Region) (key other val : CStr) : Prop :=
  ∃ err region', write key val region = some (err, region') ∧ SameOutcome other region region'

/-- When it does: the value is refused for its length, or the append is refused, or the new string
has room and ends inside a page and the two keys are apart or the `splice` is refused. -/
def IsolatedWhen (region : Region) (key other val : CStr) : Prop :=
  maxValSize < val.bytes.length ∨
    ∃ content, get region.bytes = some content ∧
      (AppendRefused content key val ∨
        storedLength content key val < nvsSize ∧ storedLength content key val % pageSize ≠ 0 ∧
          (SpliceRefused content key val ∨ Separate content key other val))

section Outcome

variable {content content' : List UInt8} {key val other : CStr} {region region' : Region}

/-- The outcome is the value under the key, or the old output. -/
theorem outcome_holds (h : Holds region.bytes content) (hkey : ¬ badKey key) {out : List UInt8}
    (hroom : nvsSize ≤ out.length) :
    outcome key region out = match (lookup content key).map unescape with
      | some value => some (.ok, some value)
      | none => some (.keynotfound, get out) := by
  unfold outcome
  cases hcut : splitFirst (keySearch key) content with
  | none => simp [read_absent h hkey hcut, lookup_eq_none_iff.mpr hcut]
  | some cut =>
      obtain ⟨before, after⟩ := cut
      have htext := lookup_eq_some hcut
      have hnul : 0 ∉ itemText after := fun hmem ↦ h.nul_free (lookup_subset htext hmem)
      have hlen : (itemText after).length < out.length := by
        have hcontent := h.length_lt
        have hafter := (itemText_prefix_self after).length_le
        rw [region.size, splitFirst_eq hcut, List.length_append] at hcontent
        omega
      have hholds := restored_holds out 0 hnul (by omega)
      rw [List.drop_zero] at hholds
      simp [read_found _ _ h hkey hcut, htext, hlen, get_holds hholds]

/-- Two stores have the same outcome for a key exactly when they have the same value under it. -/
theorem sameOutcome_iff (h : Holds region.bytes content) (h' : Holds region'.bytes content')
    (hkey : ¬ badKey key) :
    SameOutcome key region region' ↔
      (lookup content' key).map unescape = (lookup content key).map unescape := by
  constructor
  · intro hsame
    have hout := hsame (List.replicate nvsSize 0) List.length_replicate.ge
    rw [outcome_holds h hkey List.length_replicate.ge,
      outcome_holds h' hkey List.length_replicate.ge] at hout
    cases hold : (lookup content key).map unescape <;>
      cases hnew : (lookup content' key).map unescape <;> simp_all
  · intro hvalue out hroom
    rw [outcome_holds h hkey hroom, outcome_holds h' hkey hroom, hvalue]

/-- A store that has lost its terminator has another outcome. -/
theorem not_sameOutcome_of_lost (h : Holds region.bytes content) (hlost : 0 ∉ region'.bytes)
    (hkey : ¬ badKey key) : ¬ SameOutcome key region region' := by
  intro hsame
  have hout := hsame (List.replicate nvsSize 0) List.length_replicate.ge
  rw [outcome_holds h hkey List.length_replicate.ge, outcome, read_unterminated hlost hkey] at hout
  cases hold : (lookup content key).map unescape <;> simp [hold] at hout

/-- For every store that a sequence of `write` calls leaves in the cleared region, every two
nonempty keys that pass the check and every value. -/
theorem isolated_iff (h : Reachable writeCall zeroRegion region) (hkey : ¬ badKey key)
    (hkey_ne : key.bytes ≠ []) (hother : ¬ badKey other) (hother_ne : other.bytes ≠ []) :
    Isolated region key other val ↔ IsolatedWhen region key other val := by
  by_cases hval : val.bytes.length ≤ maxValSize
  · rw [IsolatedWhen, or_iff_right (Nat.not_lt.mpr hval)]
    refine write_post_iff hkey hval (by simp [SameOutcome])
      (fun content region' hcontent hlost ↦ not_sameOutcome_of_lost hcontent hlost hother)
      fun content final region' hcontent hstored hfinal ↦ ?_
    have hitems := itemized_of_reachable h hcontent
    rw [sameOutcome_iff hcontent hfinal hother,
      values_stored_iff hkey hkey_ne hother hother_ne hitems hstored]
  · simp [Isolated, IsolatedWhen, write, Nat.lt_of_not_le hval, SameOutcome]

end Outcome

/-- A new SSID in front of a password. Neither key ends in the other one. -/
theorem isolated_replaced : ∃ region : Region,
    Holds region.bytes (lit ",ssid=home,password=a\\=b") ∧
      Isolated region (.ofBytes (lit "ssid")) (.ofBytes (lit "password"))
        (.ofBytes (lit "TestSsid")) := by
  obtain ⟨first, region, hssid, _, hpassword, hholds⟩ := two_writes
  have hreach : Reachable writeCall zeroRegion region :=
    ⟨_, .step (.step .refl (writeCall_of_write hssid)) (writeCall_of_write hpassword)⟩
  refine ⟨region, hholds, (isolated_iff hreach (by decide) (by decide) (by decide)
    (by decide)).mpr (.inr ⟨_, get_holds hholds, .inr ⟨by decide, by decide, .inr ?_⟩⟩)⟩
  exact separate_of_not_suffix (by decide) (by decide) _ _

/-- Writing a key makes every shorter key that it ends in readable, in the cleared region too. -/
theorem suffix_key_found : ¬ ∀ (region : Region) (key other val : CStr),
    Reachable writeCall zeroRegion region → ¬ badKey key → key.bytes ≠ [] → ¬ badKey other →
    other.bytes ≠ [] → key ≠ other → Isolated region key other val := by
  intro hclaim
  let key : CStr := .ofBytes (lit "hubkey")
  let other : CStr := .ofBytes (lit "key")
  let val : CStr := .ofBytes (lit "v")
  have hstored : stored [] key val = some (comma :: newItem key val) := by decide
  obtain ⟨_, region', _, _, hwrite, hpart, _⟩ :=
    write_stored zeroRegion_holds (by decide) (by decide) hstored
      (by decide)
  have hdiff : key ≠ other := fun heq ↦ absurd (congrArg CStr.bytes heq) (by decide)
  obtain ⟨err, after, hafter, hsame⟩ := hclaim zeroRegion key other val ⟨[], .refl⟩ (by decide)
    (by decide) (by decide) (by decide) hdiff
  rw [hwrite] at hafter
  simp only [Option.some.injEq, Prod.mk.injEq] at hafter
  obtain ⟨rfl, rfl⟩ := hafter
  have hvalue := (sameOutcome_iff zeroRegion_holds (hpart (by decide)) (by decide)).mp hsame
  exact absurd hvalue (by decide)

end DirtieNode.Flashmem
