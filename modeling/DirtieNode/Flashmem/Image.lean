import DirtieNode.Flashmem.Content
import DirtieNode.Library.Transition

/-!
# The flash image after a write

`write` erases the whole region and programs the pages that cover `strlen(buf)` bytes. The
terminator is the byte behind these, so it is programmed when the string ends inside a page and
stays erased when the string fills its last page. `terminated_iff` says that over a run of
successful writes this is all that can go wrong.
-/

namespace DirtieNode.Flashmem

open CString Transition

/-- The region as `initialize_flash` clears it. -/
def zeroRegion : Region :=
  ⟨List.replicate nvsSize 0, List.length_replicate⟩

/-- The cleared region holds the empty string. -/
theorem zeroRegion_holds : Holds zeroRegion.bytes [] :=
  holds_replicate (s := []) nvsSize (by simp) (by decide)

/-- A region with a string is left alone. -/
theorem initializeFlash_of_holds {region : Region} {content : List UInt8}
    (h : Holds region.bytes content) (mallocOk : Bool) :
    initializeFlash false mallocOk region = some (.ok, region) :=
  initializeFlash_of_mem h.zero_mem (by decide) mallocOk

/-! ## Pages -/

/-- A store at the start of the region keeps the bytes behind it. -/
theorem Region.store_eq (region : Region) (src : List UInt8) (h : src.length ≤ nvsSize) :
    ∃ region', region.store src = some region' ∧
      region'.bytes = src ++ region.bytes.drop src.length := by
  simp [Region.store, h]

/-- Programming puts the first bytes of the buffer in front of erased flash. -/
theorem doFlashEraseProgram_eq (buf : List UInt8) {count : Nat} (hbuf : buf.length = nvsSize)
    (hcount : count ≤ nvsSize) (region : Region) :
    ∃ region', doFlashEraseProgram ⟨buf, nvsSize, count⟩ region = some region' ∧
      region'.bytes = buf.take count ++ List.replicate (nvsSize - count) 0xFF := by
  obtain ⟨erased, herase, hbytes⟩ :=
    Region.store_eq region (List.replicate nvsSize 0xFF) (by simp)
  have hpage : load buf 0 count = some (buf.take count) := by
    rw [load_eq_some (by omega), List.drop_zero]
  have hlen : (buf.take count).length = count := by simp [hbuf, hcount]
  obtain ⟨region', hstore, hbytes'⟩ :=
    Region.store_eq erased (buf.take count) (by omega)
  refine ⟨region', ?_, ?_⟩
  · simp [doFlashEraseProgram, flashRangeErase, flashRangeProgram, herase, hpage, hstore]
  · have hdrop : region.bytes.drop nvsSize = [] := by simp [region.size]
    rw [hbytes', hbytes, hlen, List.length_replicate, hdrop, List.append_nil, List.drop_replicate]

/-- Clearing the region gives the zeroed one, whatever it held. -/
theorem initializeFlash_clear (region : Region) :
    initializeFlash true true region = some (.ok, zeroRegion) := by
  obtain ⟨cleared, hrun, hbytes⟩ :=
    doFlashEraseProgram_eq (List.replicate nvsSize 0) (by simp) le_rfl region
  have heq : cleared = zeroRegion := by
    cases cleared
    simpa [zeroRegion] using hbytes
  simp [initializeFlash, hrun, heq]

/-- The pages of a string that fits are in the region. -/
theorem writeSize_le {memSize : Nat} (h : memSize < nvsSize) : writeSize memSize ≤ nvsSize := by
  unfold writeSize nvsSize at *
  split <;> omega

/-- The programmed pages reach over the terminator when the string ends inside a page. -/
theorem lt_writeSize_iff (memSize : Nat) :
    memSize < writeSize memSize ↔ memSize % pageSize ≠ 0 := by
  unfold writeSize pageSize
  split <;> omega

/-- A string that fills its last page takes no page for the terminator. -/
theorem writeSize_of_full_page {memSize : Nat} (h : memSize % pageSize = 0) :
    writeSize memSize = memSize := by
  unfold writeSize
  unfold pageSize at h
  simp [h]

/-- The flash image of a terminated buffer. -/
theorem image_of_holds {buf s : List UInt8} (region : Region) (hbuf : buf.length = nvsSize)
    (h : Holds buf s) :
    ∃ region', doFlashEraseProgram ⟨buf, nvsSize, writeSize s.length⟩ region = some region' ∧
      (s.length % pageSize ≠ 0 → Holds region'.bytes s) ∧
      (s.length % pageSize = 0 → 0 ∉ region'.bytes) := by
  have hlen : s.length < nvsSize := hbuf ▸ h.length_lt
  obtain ⟨region', hrun, hbytes⟩ := doFlashEraseProgram_eq buf hbuf (writeSize_le hlen) region
  refine ⟨region', hrun, fun hpage ↦ ?_, fun hpage ↦ ?_⟩
  · have hreach := (lt_writeSize_iff s.length).mpr hpage
    obtain ⟨rest, rfl, hs⟩ := h
    obtain ⟨count, hcount⟩ := Nat.exists_eq_add_of_lt hreach
    rw [hbytes, hcount, Nat.add_assoc, List.take_length_add_append, List.take_succ_cons,
      List.append_assoc]
    exact holds_append hs
  · rw [hbytes, writeSize_of_full_page hpage, h.take_eq]
    simp [h.nul_free, List.mem_replicate]

/-! ## `write` -/

section Write

variable {content : List UInt8} {key val : CStr} {region : Region}

/-- A `write` that finds no room leaves the region alone. -/
theorem write_full (h : Holds region.bytes content) (hkey : ¬ badKey key)
    (hval : val.bytes.length ≤ maxValSize) (hstored : stored content key val = none) :
    write key val region = some (.flashmemsize, region) := by
  have hrun := upsertKey_full h region.size hkey (initializeFlash_of_holds h true) hstored
  simp [write, hrun, Nat.not_lt.mpr hval]

/-- A `write` whose string fits returns `DT_ERR_OK`. The string is in flash unless it fills its
last page, and then the region has no terminator. -/
theorem write_stored {final : List UInt8} (h : Holds region.bytes content) (hkey : ¬ badKey key)
    (hval : val.bytes.length ≤ maxValSize) (hstored : stored content key val = some final)
    (hfits : final.length < nvsSize) :
    ∃ buf' region', upsertKey key val region region.bytes = some (.ok, region, buf') ∧
      Holds buf' final ∧ write key val region = some (.ok, region') ∧
      (final.length % pageSize ≠ 0 → Holds region'.bytes final) ∧
      (final.length % pageSize = 0 → 0 ∉ region'.bytes) := by
  obtain ⟨buf', hrun, hbuf, hholds⟩ :=
    upsertKey_stored h region.size hkey (initializeFlash_of_holds h true) hstored hfits
  obtain ⟨region', himage, hpart, hfull⟩ := image_of_holds region hbuf hholds
  refine ⟨buf', region', hrun, hholds, ?_, hpart, hfull⟩
  simp [write, hrun, Nat.not_lt.mpr hval, strlen_holds hholds, himage]

/-- A `write` whose string does not fit runs out of its buffer. -/
theorem write_overrun {final : List UInt8} (h : Holds region.bytes content) (hkey : ¬ badKey key)
    (hval : val.bytes.length ≤ maxValSize) (hstored : stored content key val = some final)
    (hover : nvsSize ≤ final.length) : write key val region = none := by
  have hinit := initializeFlash_of_holds h true
  cases hrun : upsertKey key val region region.bytes with
  | none => simp [write, hrun, Nat.not_lt.mpr hval]
  | some result =>
      obtain ⟨err, region', buf'⟩ := result
      obtain ⟨hok, hlost⟩ := upsertKey_overrun h region.size hkey hinit hstored hover hrun
      simp [write, hrun, Nat.not_lt.mpr hval, hok, strlen_eq_none_iff.mpr hlost]

/-- A region that has lost its terminator cannot be written to. -/
theorem upsertKey_unterminated {buf : List UInt8} (h : 0 ∉ buf) (hkey : ¬ badKey key) :
    upsertKey key val region buf = none := by
  have hsplice : ∀ (start stop : Nat) (replace : List UInt8),
      splice buf start stop replace = none := by
    intro start stop replace
    have hlen : strlen buf = none := strlen_eq_none_iff.mpr h
    simp [splice, hlen]
  unfold upsertKey
  rw [if_neg hkey]
  cases initializeFlash false true region with
  | none => rfl
  | some result =>
      cases hfind : strstr buf (keySearch key) with
      | none => simp
      | some found =>
          cases found with
          | none => simp [strlen_eq_none_iff.mpr h]
          | some keyLoc =>
              cases hnext : getNextItem (buf.drop keyLoc) with
              | none => simp [hnext]
              | some next =>
                  cases next <;> simp [hnext, strchr_zero_eq_none h, hsplice]

/-- A `write` to a region without a terminator reads past its end. -/
theorem write_unterminated (h : 0 ∉ region.bytes) (hkey : ¬ badKey key)
    (hval : val.bytes.length ≤ maxValSize) : write key val region = none := by
  simp [write, upsertKey_unterminated h hkey, Nat.not_lt.mpr hval]

/-- What a successful `write` needs and does. -/
theorem write_ok {region' : Region} (h : write key val region = some (.ok, region')) :
    ∃ content final buf', Holds region.bytes content ∧ ¬ badKey key ∧
      val.bytes.length ≤ maxValSize ∧ stored content key val = some final ∧
      final.length < nvsSize ∧
      upsertKey key val region region.bytes = some (.ok, region, buf') ∧ Holds buf' final ∧
      (final.length % pageSize ≠ 0 → Holds region'.bytes final) ∧
      (final.length % pageSize = 0 → 0 ∉ region'.bytes) := by
  have hval : val.bytes.length ≤ maxValSize := by
    by_contra hlong
    simp [write, Nat.lt_of_not_le hlong] at h
  have hkey : ¬ badKey key := by
    intro hbad
    simp [write, upsertKey, hbad, Nat.not_lt.mpr hval] at h
  have hmem : 0 ∈ region.bytes := by
    by_contra hlost
    simp [write_unterminated hlost hkey hval] at h
  obtain ⟨content, hcontent⟩ := exists_holds hmem
  cases hstored : stored content key val with
  | none => simp [write_full hcontent hkey hval hstored] at h
  | some final =>
      have hfits : final.length < nvsSize := by
        by_contra hover
        simp [write_overrun hcontent hkey hval hstored (by omega)] at h
      obtain ⟨buf', written, hrun, hholds, hwrite, hpart, hfull⟩ :=
        write_stored hcontent hkey hval hstored hfits
      rw [hwrite] at h
      simp only [Option.some.injEq, Prod.mk.injEq, true_and] at h
      subst h
      exact ⟨content, final, buf', hcontent, hkey, hval, hstored, hfits, hrun, hholds, hpart, hfull⟩

end Write

/-! ## Runs of successful writes -/

/-- A `write` call that returns `DT_ERR_OK`, as a step of the region. -/
def writeStep (region : Region) (item : CStr × CStr) : Option Region :=
  match write item.1 item.2 region with
  | some (.ok, region') => some region'
  | _ => none

/-- A step of the region is a `write` that returns `DT_ERR_OK`. -/
theorem writeStep_eq_some {region region' : Region} {item : CStr × CStr} :
    writeStep region item = some region' ↔ write item.1 item.2 region = some (.ok, region') := by
  unfold writeStep
  split <;> simp_all

/-- The string in flash after a `write` is the one that `upsert_key` left in the buffer, and both
are terminated. -/
def KeepsString (taken : Taken Region (CStr × CStr)) : Prop :=
  ∃ region buf s,
    upsertKey taken.event.1 taken.event.2 taken.before taken.before.bytes =
      some (.ok, region, buf) ∧
    get buf = some s ∧ get taken.after.bytes = some s

/-- The new string ends inside a page, by the place of the key and the lengths of the item. -/
def EndsInsidePage (taken : Taken Region (CStr × CStr)) : Prop :=
  ∃ content, get taken.before.bytes = some content ∧
    storedLength content taken.event.1 taken.event.2 % pageSize ≠ 0

/-- The images of a run of writes from the cleared region all keep their string exactly when no
string fills its last page. -/
theorem terminated_iff {finish : Region} {trace : List (Taken Region (CStr × CStr))}
    (h : Run writeStep zeroRegion trace finish) :
    (∀ taken ∈ trace, KeepsString taken) ↔ ∀ taken ∈ trace, EndsInsidePage taken := by
  refine forall₂_congr fun taken hmem ↦ ?_
  obtain ⟨content, final, buf, hbefore, _, _, hstored, _, hrun, hbuf, hpart, hfull⟩ :=
    write_ok (writeStep_eq_some.mp (h.of_mem hmem).2)
  have hlen := stored_length hstored
  constructor
  · rintro ⟨region, _, s, _, _, hafter⟩
    refine ⟨content, get_holds hbefore, fun hpage ↦ ?_⟩
    exact hfull (hlen ▸ hpage) (get_eq_some_iff.mp hafter).zero_mem
  · rintro ⟨other, hother, hpage⟩
    obtain rfl := hbefore.unique (get_eq_some_iff.mp hother)
    exact ⟨_, buf, final, hrun, get_holds hbuf, get_holds (hpart (hlen ▸ hpage))⟩

/-- The first item of a store. -/
theorem stored_empty {key val : CStr} (hsize : itemSize key val + 1 ≤ nvsSize - 1) :
    stored [] key val = some (comma :: newItem key val) := by
  have hcut : splitFirst (keySearch key) [] = none := by simp [splitFirst, keySearch_ne_nil]
  simp [stored, hcut, newItem_length, hsize]

/-- The first write into the cleared region. -/
theorem first_write (key val : CStr) (hkey : ¬ badKey key)
    (hval : val.bytes.length ≤ maxValSize) (hsize : itemSize key val + 1 ≤ nvsSize - 1) :
    ∃ region, writeStep zeroRegion (key, val) = some region ∧
      (storedLength [] key val % pageSize ≠ 0 → Holds region.bytes (comma :: newItem key val)) := by
  obtain ⟨_, region, _, _, hwrite, hpart, _⟩ :=
    write_stored zeroRegion_holds hkey hval (stored_empty hsize)
      (by simp only [List.length_cons, newItem_length]; unfold nvsSize at *; omega)
  refine ⟨region, writeStep_eq_some.mpr hwrite, ?_⟩
  rwa [← stored_length (stored_empty hsize)]

/-- An SSID and then a password, into the cleared region. -/
theorem two_writes : ∃ first second : Region,
    write (.ofBytes (lit "ssid")) (.ofBytes (lit "home")) zeroRegion = some (.ok, first) ∧
      Holds first.bytes (lit ",ssid=home") ∧
      write (.ofBytes (lit "password")) (.ofBytes (lit "a=b")) first = some (.ok, second) ∧
      Holds second.bytes (lit ",ssid=home,password=a\\=b") := by
  have hssid : stored [] (.ofBytes (lit "ssid")) (.ofBytes (lit "home")) =
      some (lit ",ssid=home") := by decide
  have hpassword : stored (lit ",ssid=home") (.ofBytes (lit "password")) (.ofBytes (lit "a=b")) =
      some (lit ",ssid=home,password=a\\=b") := by decide
  obtain ⟨_, first, _, _, hfirst, hpart, _⟩ :=
    write_stored zeroRegion_holds (by decide) (by decide) hssid (by decide)
  have hholds := hpart (by decide)
  obtain ⟨_, second, _, _, hsecond, hpart', _⟩ :=
    write_stored hholds (by decide) (by decide) hpassword (by decide)
  exact ⟨first, second, hfirst, hholds, hsecond, hpart' (by decide)⟩

/-- Both writes keep their strings. -/
theorem terminated_iff_two_writes : ∃ first second : Region,
    let trace := [⟨first, (.ofBytes (lit "password"), .ofBytes (lit "a=b")), second⟩,
      ⟨zeroRegion, (.ofBytes (lit "ssid"), .ofBytes (lit "home")), first⟩]
    Run writeStep zeroRegion trace second ∧ ∀ taken ∈ trace, KeepsString taken := by
  obtain ⟨first, second, hssid, hholds, hpassword, _⟩ := two_writes
  have hfirst : writeStep zeroRegion (.ofBytes (lit "ssid"), .ofBytes (lit "home")) = some first :=
    writeStep_eq_some.mpr hssid
  have hsecond : writeStep first (.ofBytes (lit "password"), .ofBytes (lit "a=b")) = some second :=
    writeStep_eq_some.mpr hpassword
  have hrun := Run.step (.step .refl hfirst) hsecond
  refine ⟨first, second, hrun, (terminated_iff hrun).mpr fun taken hmem ↦ ?_⟩
  simp only [List.mem_cons, List.not_mem_nil, or_false] at hmem
  obtain rfl | rfl := hmem
  · exact ⟨_, get_holds hholds, show storedLength (lit ",ssid=home") (.ofBytes (lit "password"))
      (.ofBytes (lit "a=b")) % pageSize ≠ 0 by decide⟩
  · exact ⟨[], get_holds zeroRegion_holds, show storedLength [] (.ofBytes (lit "ssid"))
      (.ofBytes (lit "home")) % pageSize ≠ 0 by decide⟩

/-- An item of 255 bytes behind the comma fills the first page: the store loses its terminator. -/
theorem terminator_lost : ¬ ∀ (finish : Region) (trace : List (Taken Region (CStr × CStr))),
    Run writeStep zeroRegion trace finish → ∀ taken ∈ trace, KeepsString taken := by
  intro hclaim
  let key : CStr := .ofBytes (lit "k")
  let val : CStr := .replicate 253 97
  have hsize : itemSize key val = 255 := itemSize_replicate key 253 97 _ _ (by decide)
  have hval : val.bytes.length = 253 := List.length_replicate
  obtain ⟨region, hwrite, _⟩ := first_write key val (by decide)
    (by rw [hval]; decide) (by rw [hsize]; decide)
  have hrun := Run.step .refl hwrite
  obtain ⟨_, _, s, _, _, hafter⟩ := hclaim region _ hrun _ (List.mem_singleton.mpr rfl)
  obtain ⟨content, final, _, hbefore, _, _, hstored, _, _, _, _, hfull⟩ :=
    write_ok (writeStep_eq_some.mp (hrun.of_mem (List.mem_singleton.mpr rfl)).2)
  obtain rfl := hbefore.unique zeroRegion_holds
  have hlen : final.length = 256 := by
    rw [stored_length hstored]
    simp only [storedLength, splitFirst, keySearch_ne_nil, if_false, List.length_nil, hsize]
  exact hfull (by rw [hlen]; rfl) (get_eq_some_iff.mp hafter).zero_mem

end DirtieNode.Flashmem
