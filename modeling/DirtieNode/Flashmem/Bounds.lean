import DirtieNode.Flashmem.Image

/-!
# Upserts and the end of the buffer

`upsert_key` has one size test for an append and another one in `splice`. The first one leaves room
for the terminator. The second one counts the bytes before the item twice and those behind it not
at all, so it lets a long replacement through when most of the store is behind the item.
-/

namespace DirtieNode.Flashmem

open CString

/-- Every access of `upsert_key` is inside its buffer, and it leaves a terminated string there. -/
def StaysInside (key val : CStr) (region : Region) (buf : List UInt8) : Prop :=
  ∃ err region' buf', upsertKey key val region buf = some (err, region', buf') ∧
    buf'.length = nvsSize ∧ 0 ∈ buf'

/-- The key is not in the store, or the size test of `splice` refuses the new item, or the store is
shorter than the buffer with the new item in place of the old one. -/
def SpliceFits (content : List UInt8) (key val : CStr) : Prop :=
  match splitFirst (keySearch key) content with
  | none => True
  | some (before, after) =>
      nvsSize < 2 * before.length + (key.bytes.length + 1 + (itemText after).length) +
          itemSize key val ∨
        before.length + itemSize key val + (itemRest after).length < nvsSize

instance (content : List UInt8) (key val : CStr) : Decidable (SpliceFits content key val) :=
  match h : splitFirst (keySearch key) content with
  | none => .isTrue (by simp [SpliceFits, h])
  | some (before, after) =>
      decidable_of_iff (nvsSize < 2 * before.length +
          (key.bytes.length + 1 + (itemText after).length) + itemSize key val ∨
        before.length + itemSize key val + (itemRest after).length < nvsSize)
        (by simp [SpliceFits, h])

/-- Clearing the region leaves nothing to clear. -/
theorem initializeFlash_idem (region : Region) :
    ∃ region', initializeFlash false true region = some (.ok, region') ∧
      initializeFlash false true region' = some (.ok, region') := by
  by_cases hany : region.bytes.any (· != 0xFF) = true
  · have hkept : initializeFlash false true region = some (.ok, region) := by
      simp [initializeFlash, hany]
    exact ⟨region, hkept, hkept⟩
  · have hclear := initializeFlash_clear region
    simp only [initializeFlash, Bool.not_true, Bool.false_and, Bool.false_eq_true,
      if_false] at hclear
    refine ⟨zeroRegion, ?_, initializeFlash_of_holds zeroRegion_holds true⟩
    simpa [initializeFlash, hany] using hclear

section Upsert

variable {content final buf : List UInt8} {key val : CStr} {region region' : Region}

/-- The buffer depends on the region only through its initialization. -/
theorem upsertKey_initialized (hkey : ¬ badKey key)
    (h : initializeFlash false true region = some (.ok, region'))
    (h' : initializeFlash false true region' = some (.ok, region')) :
    upsertKey key val region buf = upsertKey key val region' buf := by
  unfold upsertKey
  rw [if_neg hkey, if_neg hkey, h, h']

/-- The string of an accepted upsert fits exactly when the splice does. -/
theorem spliceFits_iff (hlen : content.length < nvsSize)
    (hstored : stored content key val = some final) :
    SpliceFits content key val ↔ final.length < nvsSize := by
  unfold SpliceFits
  rcases stored_eq_some hstored with ⟨hcut, hroom, rfl⟩ |
    ⟨before, after, hcut, ⟨hsize, rfl⟩ | ⟨hsize, rfl⟩⟩
  · rw [hcut]
    refine iff_of_true trivial ?_
    simp only [List.length_append, List.length_cons]
    omega
  · rw [keySearch_append_length, newItem_length] at hsize
    simp only [hcut, List.length_append, newItem_length, Nat.not_lt.mpr hsize, false_or]
  · rw [keySearch_append_length, newItem_length] at hsize
    simp only [hcut]
    exact iff_of_true (.inl hsize) hlen

/-- For every terminated buffer, `upsert_key` stays inside it and leaves it terminated exactly when
its splice fits. -/
theorem stays_inside_iff (hbuf : buf.length = nvsSize) (h : Holds buf content)
    (hkey : ¬ badKey key) (val : CStr) (region : Region) :
    StaysInside key val region buf ↔ SpliceFits content key val := by
  obtain ⟨region', hinit, hready⟩ := initializeFlash_idem region
  have hlen : content.length < nvsSize := hbuf ▸ h.length_lt
  unfold StaysInside
  rw [upsertKey_initialized hkey hinit hready]
  cases hstored : stored content key val with
  | none =>
      have hrun := upsertKey_full h hbuf hkey hready hstored
      have hfits : SpliceFits content key val := by
        rw [SpliceFits, (stored_eq_none hstored).1]
        trivial
      exact iff_of_true ⟨_, _, buf, hrun, hbuf, h.zero_mem⟩ hfits
  | some final =>
      rw [spliceFits_iff hlen hstored]
      constructor
      · rintro ⟨err, region'', buf', hrun, _, hzero⟩
        by_contra hover
        exact (upsertKey_overrun h hbuf hkey hready hstored (Nat.not_lt.mp hover) hrun).2 hzero
      · intro hfits
        obtain ⟨buf', hrun, hbuf', hholds⟩ :=
          upsertKey_stored h hbuf hkey hready hstored hfits
        exact ⟨_, _, buf', hrun, hbuf', hholds.zero_mem⟩

end Upsert

/-- A longer SSID moves the password behind it. -/
theorem stays_inside_replaced : ∃ region : Region,
    Holds region.bytes (lit ",ssid=home,password=a\\=b") ∧
      StaysInside (.ofBytes (lit "ssid")) (.ofBytes (lit "elsewhere")) region region.bytes := by
  obtain ⟨_, region, _, _, _, hholds⟩ := two_writes
  have hfits : SpliceFits (lit ",ssid=home,password=a\\=b") (.ofBytes (lit "ssid"))
      (.ofBytes (lit "elsewhere")) := by decide
  exact ⟨region, hholds, (stays_inside_iff region.size hholds (by decide) _ _).mpr hfits⟩

/-- A key at the start of the store is found there. -/
theorem splitFirst_first {key : CStr} (hkey : ¬ badKey key) (after : List UInt8) :
    splitFirst (keySearch key) (comma :: (keySearch key ++ after)) = some ([comma], after) := by
  rw [splitFirst_comma hkey, splitFirst_self _ after (keySearch_ne_nil key), Option.map_some]

/-- Replacing an empty first item by one of 102 bytes passes the size test, and does not fit in
front of 4083 bytes of another item. -/
theorem splice_leaves_buffer : ¬ ∀ (content buf : List UInt8) (key val : CStr) (region : Region),
    buf.length = nvsSize → Holds buf content → ¬ badKey key → val.bytes.length ≤ maxValSize →
      StaysInside key val region buf := by
  intro hclaim
  obtain ⟨count, hcount⟩ : ∃ count, count = 4080 := ⟨_, rfl⟩
  let key : CStr := .ofBytes (lit "k")
  let val : CStr := .replicate 100 97
  let rest : List UInt8 := lit ",r=" ++ List.replicate count 97
  let content := comma :: (keySearch key ++ rest)
  have hkey : ¬ badKey key := by decide
  have hrest : rest.length = 4083 := by
    rw [List.length_append, List.length_replicate, hcount]
    rfl
  have hlen : content.length = 4086 := by
    have hsearch : (keySearch key).length = 2 := rfl
    rw [List.length_cons, List.length_append, hrest, hsearch]
  have hval : val.bytes.length = 100 := List.length_replicate
  have hsize : itemSize key val = 102 := itemSize_replicate key 100 97 _ _ (by decide)
  have hnul : 0 ∉ content := by
    have hlit : (0 : UInt8) ∉ lit ",r=" := by decide
    simp only [content, rest, List.mem_cons, List.mem_append, not_or, List.mem_replicate]
    exact ⟨by decide, keySearch_nul_free key, hlit, by simp⟩
  have hbuf : (content ++ List.replicate 10 0).length = nvsSize := by simp [hlen, nvsSize]
  have hholds : Holds (content ++ List.replicate 10 0) content :=
    holds_replicate 10 hnul (by decide)
  have hcut : splitFirst (keySearch key) content = some ([comma], rest) :=
    splitFirst_first hkey rest
  have htext : itemText rest = [] := rfl
  have hstored : stored content key val = some ([comma] ++ newItem key val ++ itemRest rest) := by
    have hsearch : (keySearch key).length = 2 := rfl
    rw [stored, hcut]
    dsimp only
    rw [if_pos (by simp [htext, newItem_length, hsize, hsearch, nvsSize])]
  have hover : nvsSize ≤ ([comma] ++ newItem key val ++ itemRest rest).length := by
    have hwhole : itemText rest ++ itemRest rest = rest := itemText_append_itemRest rest
    rw [htext, List.nil_append] at hwhole
    simp [hwhole, newItem_length, hsize, hrest, nvsSize]
  obtain ⟨err, region', buf', hrun, _, hzero⟩ :=
    hclaim content _ key val zeroRegion hbuf hholds hkey (by rw [hval]; decide)
  exact (upsertKey_overrun hholds hbuf hkey (initializeFlash_of_holds zeroRegion_holds true)
    hstored hover hrun).2 hzero

end DirtieNode.Flashmem
