import DirtieNode.Flashmem.Fields
import DirtieNode.Flashmem.Refinement

/-!
# Plain credentials

A value is plain if it has no comma and its text, with the escapes, is shorter than an array. A
store of plain values under the three keys stays inside the first page, where no `splice` is refused
and no terminator is lost, so that every write of a plain value into it is clean.
-/

namespace DirtieNode.Flashmem

open CString State

/-- The value has no comma, and its text fits an array. -/
structure PlainValue (val : List UInt8) : Prop where
  no_comma : comma ∉ val
  fits : (escChars val).length < 64

instance (val : List UInt8) : Decidable (PlainValue val) :=
  decidable_of_iff (comma ∉ val ∧ (escChars val).length < 64)
    ⟨fun h ↦ ⟨h.1, h.2⟩, fun h ↦ ⟨h.no_comma, h.fits⟩⟩

/-- The items have different keys and plain values. -/
structure PlainItems (items : List (Credential × CStr)) : Prop where
  nodup : (items.map Prod.fst).Nodup
  plain : ∀ item ∈ items, PlainValue item.2.bytes

/-- The region stores plain values and nothing else. -/
def PlainStore (region : Region) : Prop :=
  ∃ items, PlainItems items ∧ Holds region.bytes (credentialText items)

/-- The cleared region has plain values only. -/
theorem plainStore_empty : PlainStore zeroRegion :=
  ⟨[], ⟨List.nodup_nil, by simp⟩, zeroRegion_holds⟩

variable {items front back : List (Credential × CStr)} {field : Credential} {old val : CStr}
  {region : Region}

/-- A plain value is shorter than its array. -/
theorem PlainValue.length_lt {val : List UInt8} (h : PlainValue val) : val.length < 64 := by
  have hescaped := h.fits
  rw [escChars_length] at hescaped
  omega

/-- The list has all three credentials. -/
theorem mem_credentials (field : Credential) : field ∈ credentials := by
  cases field <;> decide

/-- An item of a plain value, with its comma. -/
theorem plain_newItem_length (field : Credential) (h : PlainValue val.bytes) :
    (newItem field.key val).length ≤ 72 := by
  have hkey : field.key.bytes.length ≤ 8 := by cases field <;> decide
  have htext := h.fits
  simp only [newItem, keySearch, List.length_append, List.length_singleton]
  omega

/-- Three plain items take at most 219 bytes. -/
theorem PlainItems.length_le (h : PlainItems items) : (credentialText items).length ≤ 219 := by
  have hcount : items.length ≤ 3 := by
    have hsubset : items.map Prod.fst ⊆ credentials := fun field _ ↦ mem_credentials field
    simpa [credentials] using h.nodup.length_le_of_subset hsubset
  have hbound : ∀ items : List (Credential × CStr), (∀ item ∈ items, PlainValue item.2.bytes) →
      (credentialText items).length ≤ 73 * items.length := by
    intro items hplain
    induction items with
    | nil => simp [credentialText]
    | cons item items ih =>
        have hitem := plain_newItem_length item.1 (hplain item List.mem_cons_self)
        have hrest := ih fun item hmem ↦ hplain item (List.mem_cons_of_mem _ hmem)
        simp only [credentialText, List.map_cons, storeText_cons, List.length_append,
          List.length_cons] at hrest ⊢
        omega
  have hitems := hbound items h.plain
  omega

/-- What is found under a key of the items. -/
theorem PlainItems.lookup_mem (h : PlainItems (front ++ (field, old) :: back)) :
    lookup (credentialText (front ++ (field, old) :: back)) field.key =
      some (escChars old.bytes) := by
  have hplain : PlainValue old.bytes := h.plain (field, old) (by simp)
  have hnext : itemText (credentialText back) = [] := by
    cases back <;> simp [credentialText, itemText]
  rw [lookup_eq_some (splitFirst_credential h.nodup),
    itemText_append (fun hmem ↦ hplain.no_comma (comma_mem_escChars.mp hmem)) hnext]

/-- A credential that is not among the items is not found. -/
theorem lookup_absent (h : field ∉ items.map Prod.fst) :
    lookup (credentialText items) field.key = none := by
  rw [lookup_eq_none_iff]
  cases hfound : splitFirst (keySearch field.key) (credentialText items) with
  | none => rfl
  | some cut =>
      have heq := splitFirst_eq hfound
      rw [credentialText_eq] at heq
      have hfree : ∀ item ∈ items.map fun item ↦ (item.1, escChars item.2.bytes),
          KeyFree item.2 := by
        simp only [List.forall_mem_map]
        exact fun item _ ↦ keyFree_escChars item.2
      obtain ⟨front, text, back, hitems, _⟩ :=
        occurrence_item hfree (heq.trans (List.append_assoc ..))
      have hmem : (field, text) ∈ items.map fun item ↦ (item.1, escChars item.2.bytes) := by
        rw [hitems]
        simp
      obtain ⟨item, hitem, hsame⟩ := List.mem_map.mp hmem
      exact absurd (List.mem_map.mpr ⟨item, hitem, (Prod.mk.inj hsame).1⟩) h

/-- A key has an item, or its text is not in the store. -/
theorem exists_item (items : List (Credential × CStr)) (field : Credential) :
    field ∉ items.map Prod.fst ∨ ∃ front old back, items = front ++ (field, old) :: back := by
  by_cases hmem : field ∈ items.map Prod.fst
  · obtain ⟨⟨_, old⟩, hitem, rfl⟩ := List.mem_map.mp hmem
    obtain ⟨front, back, rfl⟩ := List.append_of_mem hitem
    exact .inr ⟨front, old, back, rfl⟩
  · exact .inl hmem

/-- The texts of plain values are found whole. -/
theorem PlainItems.lookup (h : PlainItems items) {text : List UInt8}
    (hlookup : Flashmem.lookup (credentialText items) field.key = some text) :
    ∃ val, PlainValue val ∧ text = escChars val := by
  rcases exists_item items field with habsent | ⟨front, old, back, rfl⟩
  · rw [lookup_absent habsent] at hlookup
    exact absurd hlookup (by simp)
  · rw [h.lookup_mem] at hlookup
    exact ⟨old.bytes, h.plain (field, old) (by simp), (Option.some.inj hlookup).symm⟩

/-- A store of plain items is small enough for every `splice`. -/
theorem PlainItems.not_refused (h : PlainItems items) (hval : PlainValue val.bytes) :
    ¬ SpliceRefused (credentialText items) field.key val := by
  rintro ⟨before, after, hcut, hsize⟩
  have hwhole := congrArg List.length (splitFirst_eq hcut)
  have hitems := h.length_le
  have hitem := plain_newItem_length field hval
  have htext := (itemText_prefix_self after).length_le
  rw [newItem_length] at hitem
  simp only [keySearch, List.length_append, List.length_singleton] at hwhole
  unfold nvsSize at hsize
  omega

/-- An upsert of a plain value leaves plain items. -/
theorem PlainItems.stored (h : PlainItems items) (field : Credential)
    (hval : PlainValue val.bytes) : ∃ items', PlainItems items' ∧ items' ≠ [] ∧
      Flashmem.stored (credentialText items) field.key val = some (credentialText items') := by
  rcases exists_item items field with habsent | ⟨front, old, back, rfl⟩
  · have hnew : PlainItems (items ++ [(field, val)]) := by
      refine ⟨?_, ?_⟩
      · rw [List.map_append, List.map_singleton, List.nodup_append]
        refine ⟨h.nodup, by simp, fun other hother last hlast heq ↦ habsent ?_⟩
        have hfield : other = field := heq.trans (List.mem_singleton.mp hlast)
        exact hfield ▸ hother
      · intro item hmem
        rcases List.mem_append.mp hmem with hold | hlast
        · exact h.plain item hold
        · rwa [List.mem_singleton.mp hlast]
    refine ⟨_, hnew, by simp, stored_new habsent ?_⟩
    exact hnew.length_le.trans (by decide)
  · have hold : PlainValue old.bytes := h.plain (field, old) (by simp)
    have hkept : PlainItems (front ++ (field, val) :: back) := by
      refine ⟨by simpa using h.nodup, ?_⟩
      intro item hmem
      rcases List.mem_append.mp hmem with hfront | hback
      · exact h.plain item (List.mem_append_left _ hfront)
      · rcases List.mem_cons.mp hback with rfl | hback
        · exact hval
        · exact h.plain item (List.mem_append_right _ (List.mem_cons_of_mem _ hback))
    refine ⟨_, hkept, by simp, ?_⟩
    cases hstored : Flashmem.stored (credentialText (front ++ (field, old) :: back)) field.key
        val with
    | none =>
        have hrefused := (stored_eq_none_iff.mp hstored).1
        rw [h.lookup_mem] at hrefused
        exact absurd hrefused (by simp)
    | some final =>
        rw [(stored_credential_iff h.nodup hstored).mpr
          ⟨fun hrefused ↦ absurd hrefused (h.not_refused hval), fun _ ↦ hold.no_comma⟩]

/-- A write of a plain value is acknowledged and clean, and leaves a store of plain values. -/
theorem PlainStore.write (h : PlainStore region) (field : Credential)
    (hval : PlainValue val.bytes) : CleanWrite region field.key val ∧
      ∃ region', write field.key val region = some (.ok, region') ∧ PlainStore region' := by
  obtain ⟨items, hitems, hholds⟩ := h
  obtain ⟨items', hitems', hne, hstored⟩ := hitems.stored field hval
  have hlength := hitems'.length_le
  have hpage : (credentialText items').length % pageSize ≠ 0 := by
    have hpos : 0 < (credentialText items').length := by
      cases items' with
      | nil => exact absurd rfl hne
      | cons item items' => simp [credentialText]
    unfold pageSize
    omega
  obtain ⟨_, region', _, _, hwrite, hpart, _⟩ := write_stored hholds field.key_ok
    (hval.length_lt.le.trans (by decide)) hstored (hlength.trans_lt (by decide))
  refine ⟨.inr ⟨_, get_holds hholds, .inr ⟨?_, .inl ⟨hitems.not_refused hval, hval.no_comma⟩⟩⟩,
    region', hwrite, items', hitems', hpart hpage⟩
  rwa [← stored_length hstored]

end DirtieNode.Flashmem
