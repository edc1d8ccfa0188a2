import DirtieNode.Flashmem.Interrupted

/-!
# The byte store as an atomic store

`atomicStore` keeps each value whole and apart from the others. `refines_iff` says for which runs of
`write` the bytes in flash cannot be told from it by `read`: for those, and only those, in which
each write is refused or keeps the terminator, gets through `splice`, and has no comma in its value.
-/

namespace DirtieNode.Flashmem

open CString Transition

variable {K : Type} {content final : List UInt8} {region region' start finish : Region}
  {values : Values}

/-- Keys that pass the check and of which none ends in another one. -/
structure KeySet (K : Type) where
  key : K → CStr
  ok : ∀ k, ¬ badKey (key k)
  ne_nil : ∀ k, (key k).bytes ≠ []
  apart : ∀ k k', (key k).bytes <:+ (key k').bytes → k = k'

/-- A key of the firmware ends in no other one. -/
theorem Credential.eq_of_suffix (field other : Credential)
    (h : field.key.bytes <:+ other.key.bytes) : field = other := by
  by_contra hne
  exact Credential.key_apart hne h

/-- The three keys of the firmware. -/
def credentialKeys : KeySet Credential where
  key := Credential.key
  ok := Credential.key_ok
  ne_nil := Credential.key_ne_nil
  apart := Credential.eq_of_suffix

/-- A call of `write` with one of the keys, as a step of the region. -/
def KeySet.write (keys : KeySet K) (region : Region) (item : K × CStr) : Option Region :=
  writeCall region (keys.key item.1, item.2)

/-- The write has returned `DT_ERR_OK`. -/
def KeySet.acknowledges (keys : KeySet K) (taken : Taken Region (K × CStr)) : Bool :=
  (Flashmem.write (keys.key taken.event.1) taken.event.2 taken.before).any fun result ↦
    result.1 = .ok

/-- The value under a key, replaced. -/
def Values.set (values : Values) (key val : CStr) : Values :=
  fun k ↦ if k = key.bytes then some val.bytes else values k

/-- What becomes of an atomic store when a write is acknowledged, or is not. -/
def KeySet.apply (keys : KeySet K) (values : Values) (taken : Taken Region (K × CStr)) : Values :=
  if keys.acknowledges taken then values.set (keys.key taken.event.1) taken.event.2 else values

/-- What an atomic store holds after the acknowledged writes of a run. -/
def KeySet.acknowledged (keys : KeySet K) : List (Taken Region (K × CStr)) → Values
  | [] => fun _ => none
  | taken :: older => keys.apply (keys.acknowledged older) taken

/-- What `read` of an atomic store reports of a key. -/
def atomicOutcome (key : CStr) (values : Values) (out : List UInt8) :
    Option (DtErr × Option (List UInt8)) :=
  (atomicStore.read key values out 0).map fun result ↦ (result.1, get result.2)

/-- For each key and every output object with room for any text, `read` reports the same of the
region and of the atomic store. -/
def KeySet.SameReads (keys : KeySet K) (region : Region) (values : Values) : Prop :=
  ∀ (k : K) (out : List UInt8), nvsSize ≤ out.length →
    outcome (keys.key k) region out = atomicOutcome (keys.key k) values out

/-- The write is refused, or the new string ends inside a page, and either it has the item with a
value without commas, or `splice` is refused over an old item with the same value. -/
def CleanWrite (region : Region) (key val : CStr) : Prop :=
  maxValSize < val.bytes.length ∨
    ∃ content, get region.bytes = some content ∧
      (AppendRefused content key val ∨
        storedLength content key val % pageSize ≠ 0 ∧
          (¬ SpliceRefused content key val ∧ comma ∉ val.bytes ∨
            SpliceRefused content key val ∧
              (lookup content key).map unescape = some val.bytes))

instance (region : Region) (key val : CStr) : Decidable (CleanWrite region key val) :=
  match h : get region.bytes with
  | none => decidable_of_iff (maxValSize < val.bytes.length) (by simp [CleanWrite, h])
  | some content =>
      decidable_of_iff (maxValSize < val.bytes.length ∨ AppendRefused content key val ∨
        storedLength content key val % pageSize ≠ 0 ∧
          (¬ SpliceRefused content key val ∧ comma ∉ val.bytes ∨
            SpliceRefused content key val ∧
              (lookup content key).map unescape = some val.bytes))
        (by simp [CleanWrite, h])

/-! ## What the region stores -/

/-- The string in the region is one of separate items, and has these values under the keys. -/
structure KeySet.Represents (keys : KeySet K) (region : Region) (values : Values)
    (content : List UInt8) : Prop where
  holds : Holds region.bytes content
  itemized : Itemized content
  lookup : ∀ k, (lookup content (keys.key k)).map unescape = values (keys.key k).bytes

/-- The cleared region represents the empty store. -/
theorem KeySet.represents_empty (keys : KeySet K) :
    keys.Represents zeroRegion (fun _ ↦ none) [] := by
  refine ⟨zeroRegion_holds, rfl, fun k ↦ ?_⟩
  simp [Flashmem.lookup, splitFirst, keySearch_ne_nil]

/-- A value that is found in the region is a C string with less than `NVS_SIZE` bytes. -/
theorem lookup_value {key : CStr} {value : List UInt8} (h : Holds region.bytes content)
    (hlookup : (lookup content key).map unescape = some value) :
    0 ∉ value ∧ value.length < nvsSize := by
  obtain ⟨text, htext, rfl⟩ := Option.map_eq_some_iff.mp hlookup
  refine ⟨unescape_nul_free fun hmem ↦ h.nul_free (lookup_subset htext hmem), ?_⟩
  obtain ⟨⟨before, after⟩, hcut, rfl⟩ := Option.map_eq_some_iff.mp htext
  have hcontent := h.length_lt
  have hafter := (itemText_prefix_self after).length_le
  have hvalue := unescape_length_le (itemText after)
  rw [region.size, splitFirst_eq hcut, List.length_append] at hcontent
  show (unescape (itemText after)).length < nvsSize
  omega

/-- An atomic store returns what it has, if the output has room. -/
theorem atomicOutcome_eq {key : CStr} {out : List UInt8} (hroom : nvsSize ≤ out.length)
    (hvalue : ∀ value, values key.bytes = some value → 0 ∉ value ∧ value.length < nvsSize) :
    atomicOutcome key values out = match values key.bytes with
      | some value => some (.ok, some value)
      | none => some (.keynotfound, get out) := by
  unfold atomicOutcome atomicStore
  dsimp only
  cases hval : values key.bytes with
  | none => rfl
  | some value =>
      obtain ⟨hnul, hlength⟩ := hvalue value hval
      have hcopy : memcpy out 0 (value ++ [0]) =
          some (value ++ 0 :: out.drop (value.length + 1)) := by
        rw [memcpy_eq_some (by simp; omega)]
        simp
      simp [hcopy, get_holds (holds_append hnul)]

/-- Such a region reads like the atomic store. -/
theorem KeySet.Represents.sameReads {keys : KeySet K}
    (h : keys.Represents region values content) : keys.SameReads region values := by
  intro k out hroom
  have hvalue : ∀ value, values (keys.key k).bytes = some value →
      0 ∉ value ∧ value.length < nvsSize :=
    fun value hval ↦ lookup_value h.holds ((h.lookup k).trans hval)
  rw [atomicOutcome_eq hroom hvalue, ← h.lookup k]
  exact outcome_holds h.holds (keys.ok k) hroom

/-- A string that reads like the atomic store has its values. -/
theorem lookup_of_sameReads {keys : KeySet K} (h : keys.SameReads region values)
    (hholds : Holds region.bytes content)
    (hvalue : ∀ k value, values (keys.key k).bytes = some value →
      0 ∉ value ∧ value.length < nvsSize) (k : K) :
    (lookup content (keys.key k)).map unescape = values (keys.key k).bytes := by
  have hroom : nvsSize ≤ (List.replicate nvsSize (0 : UInt8)).length := List.length_replicate.ge
  have hout := h k _ hroom
  rw [outcome_holds hholds (keys.ok k) hroom, atomicOutcome_eq hroom (hvalue k)] at hout
  cases hold : (lookup content (keys.key k)).map unescape <;>
    cases hnew : values (keys.key k).bytes <;> simp_all

/-- A region without a terminator reads like no store. -/
theorem not_sameReads_of_lost {keys : KeySet K} (hlost : 0 ∉ region.bytes) (k : K)
    (hvalue : ∀ value, values (keys.key k).bytes = some value →
      0 ∉ value ∧ value.length < nvsSize) : ¬ keys.SameReads region values := by
  intro h
  have hroom : nvsSize ≤ (List.replicate nvsSize (0 : UInt8)).length := List.length_replicate.ge
  have hout := h k _ hroom
  rw [outcome, read_unterminated hlost (keys.ok k), atomicOutcome_eq hroom hvalue] at hout
  cases hnew : values (keys.key k).bytes <;> simp [hnew] at hout

/-! ## One write -/

/-- The new value is under its key. -/
@[simp] theorem Values.set_self (values : Values) (key val : CStr) :
    values.set key val key.bytes = some val.bytes :=
  if_pos rfl

/-- A new value leaves the ones under the other keys alone. -/
theorem KeySet.set_other (keys : KeySet K) (values : Values) (val : CStr) {k other : K}
    (h : other ≠ k) : values.set (keys.key k) val (keys.key other).bytes =
      values (keys.key other).bytes :=
  if_neg fun hsame ↦ h (keys.apart other k (by rw [hsame]))

/-- The values after a write that has left its string. -/
theorem KeySet.represents_stored_iff {keys : KeySet K} {k : K} {val : CStr}
    (h : keys.Represents region values content)
    (hstored : stored content (keys.key k) val = some final) :
    (∀ j, (Flashmem.lookup final (keys.key j)).map unescape =
        values.set (keys.key k) val (keys.key j).bytes) ↔
      ¬ SpliceRefused content (keys.key k) val ∧ comma ∉ val.bytes ∨
        SpliceRefused content (keys.key k) val ∧
          (Flashmem.lookup content (keys.key k)).map unescape = some val.bytes := by
  have hother : ∀ j, j ≠ k → (Flashmem.lookup final (keys.key j)).map unescape =
      values.set (keys.key k) val (keys.key j).bytes := by
    intro j hj
    rw [keys.set_other values val hj, ← h.lookup j]
    exact (values_stored_iff (keys.ok k) (keys.ne_nil k) (keys.ok j) (keys.ne_nil j) h.itemized
      hstored).mpr (.inr (separate_of_not_suffix (fun hsuffix ↦ hj (keys.apart _ _ hsuffix))
        (fun hsuffix ↦ hj (keys.apart _ _ hsuffix).symm) content val))
  have hself : (Flashmem.lookup final (keys.key k)).map unescape = some val.bytes ↔
      ¬ SpliceRefused content (keys.key k) val ∧ comma ∉ val.bytes ∨
        SpliceRefused content (keys.key k) val ∧
          (Flashmem.lookup content (keys.key k)).map unescape = some val.bytes := by
    by_cases hsplice : SpliceRefused content (keys.key k) val
    · obtain rfl : content = final := eq_of_spliceRefused hsplice hstored
      simp [hsplice]
    · obtain ⟨rest, hrest, hlookup⟩ := lookup_stored (keys.ok k) hstored hsplice
      simp [hsplice, hlookup, unescape_itemText val.bytes hrest, itemText_eq_self_iff]
  rw [← hself]
  constructor
  · intro hall
    rw [hall k, Values.set_self]
  · intro hkept j
    by_cases hj : j = k
    · rw [hj, Values.set_self, hkept]
    · exact hother j hj

/-- A clean write keeps the region like the atomic store, and every other one does not. -/
theorem KeySet.write_cases {keys : KeySet K} {item : K × CStr}
    (h : keys.Represents region values content) (hstep : keys.write region item = some region') :
    (CleanWrite region (keys.key item.1) item.2 ∧
        ∃ final, keys.Represents region' (keys.apply values ⟨region, item, region'⟩) final) ∨
      ¬ CleanWrite region (keys.key item.1) item.2 ∧
        ¬ keys.SameReads region' (keys.apply values ⟨region, item, region'⟩) := by
  obtain ⟨k, val⟩ := item
  obtain ⟨⟨err, _⟩, hwrite, rfl⟩ := Option.map_eq_some_iff.mp hstep
  by_cases hval : val.bytes.length ≤ maxValSize
  · cases hstored : stored content (keys.key k) val with
    | none =>
        have hfull := write_full h.holds (keys.ok k) hval hstored
        have hclean : CleanWrite region (keys.key k) val :=
          .inr ⟨content, get_holds h.holds, .inl (stored_eq_none_iff.mp hstored)⟩
        rw [hfull] at hwrite
        obtain ⟨rfl, rfl⟩ := Prod.mk.inj (Option.some.inj hwrite)
        refine .inl ⟨hclean, content, ?_⟩
        simpa [KeySet.apply, KeySet.acknowledges, hfull] using h
    | some final =>
        have hfits : final.length < nvsSize := by
          by_contra hover
          rw [write_overrun h.holds (keys.ok k) hval hstored (Nat.not_lt.mp hover)] at hwrite
          exact absurd hwrite (by simp)
        obtain ⟨_, region', _, _, hok, hpart, hfull⟩ :=
          write_stored h.holds (keys.ok k) hval hstored hfits
        rw [hok] at hwrite
        obtain ⟨rfl, rfl⟩ := Prod.mk.inj (Option.some.inj hwrite)
        have hvalues : keys.apply values ⟨region, (k, val), region'⟩ =
            values.set (keys.key k) val := by
          simp [KeySet.apply, KeySet.acknowledges, hok]
        have hroom : ¬ AppendRefused content (keys.key k) val := by
          rw [← stored_eq_none_iff, hstored]
          simp
        have hstring : ∀ j value, values.set (keys.key k) val (keys.key j).bytes = some value →
            0 ∉ value ∧ value.length < nvsSize := by
          intro j value hj
          by_cases hsame : j = k
          · rw [hsame, Values.set_self] at hj
            obtain rfl := Option.some.inj hj
            exact ⟨val.nul_free, hval.trans_lt (by decide)⟩
          · rw [keys.set_other values val hsame] at hj
            exact lookup_value h.holds ((h.lookup j).trans hj)
        have hclean : CleanWrite region (keys.key k) val ↔ final.length % pageSize ≠ 0 ∧
            ∀ j, (Flashmem.lookup final (keys.key j)).map unescape =
              values.set (keys.key k) val (keys.key j).bytes := by
          rw [KeySet.represents_stored_iff h hstored, stored_length hstored, CleanWrite,
            or_iff_right (Nat.not_lt.mpr hval)]
          simp [get_holds h.holds, hroom]
        show (CleanWrite region (keys.key k) val ∧ ∃ final, keys.Represents region'
          (keys.apply values ⟨region, (k, val), region'⟩) final) ∨
          ¬ CleanWrite region (keys.key k) val ∧
            ¬ keys.SameReads region' (keys.apply values ⟨region, (k, val), region'⟩)
        rw [hvalues, hclean]
        by_cases hpage : final.length % pageSize = 0
        · exact .inr ⟨fun hboth ↦ hboth.1 hpage,
            not_sameReads_of_lost (hfull hpage) k (hstring k)⟩
        · by_cases hall : ∀ j, (Flashmem.lookup final (keys.key j)).map unescape =
              values.set (keys.key k) val (keys.key j).bytes
          · exact .inl ⟨⟨hpage, hall⟩, final, hpart hpage,
              itemized_stored (keys.ok k) h.itemized hstored, hall⟩
          · exact .inr ⟨fun hboth ↦ hall hboth.2,
              fun hreads ↦ hall (lookup_of_sameReads hreads (hpart hpage) hstring)⟩
  · have hlong : Flashmem.write (keys.key k) val region = some (.valsize, region) :=
      if_pos (Nat.lt_of_not_le hval)
    rw [hlong] at hwrite
    obtain ⟨rfl, rfl⟩ := Prod.mk.inj (Option.some.inj hwrite)
    refine .inl ⟨.inl (Nat.lt_of_not_le hval), content, ?_⟩
    simpa [KeySet.apply, KeySet.acknowledges, hlong] using h

/-! ## Runs -/

/-- Whatever is written, in any order, under keys of which none ends in another one: `read` of the
region is `read` of an atomic store after each write exactly when all the writes are clean. -/
theorem refines_iff {keys : KeySet K} {trace : List (Taken Region (K × CStr))}
    (h : Run keys.write zeroRegion trace finish) :
    Along (fun older taken ↦ keys.SameReads taken.after (keys.acknowledged (taken :: older)))
        trace ↔
      ∀ taken ∈ trace, CleanWrite taken.before (keys.key taken.event.1) taken.event.2 := by
  rw [← along_forall]
  refine h.along_iff
    (fun older region ↦ ∃ content, keys.Represents region (keys.acknowledged older) content)
    ⟨[], keys.represents_empty⟩ ?_ ?_
  · intro older before item after _ hbefore hstep
    obtain ⟨content, hrepresents⟩ := hbefore
    rcases KeySet.write_cases hrepresents hstep with ⟨hclean, _, hafter⟩ | ⟨hunclean, hdiffers⟩
    · exact iff_of_true hafter.sameReads hclean
    · exact iff_of_false hdiffers hunclean
  · intro older before item after _ hbefore hstep hclean
    obtain ⟨content, hrepresents⟩ := hbefore
    rcases KeySet.write_cases hrepresents hstep with ⟨_, hafter⟩ | ⟨hunclean, _⟩
    · exact hafter
    · exact absurd hclean hunclean

/-- A `write` with one of the keys is a step. -/
theorem KeySet.write_of_ok (keys : KeySet K) {k : K} {val : CStr} {err : DtErr}
    (h : Flashmem.write (keys.key k) val region = some (err, region')) :
    keys.write region (k, val) = some region' :=
  writeCall_of_write h

/-- A write of a new key that ends inside a page is clean. -/
theorem cleanWrite_new {key val : CStr} (h : Holds region.bytes content)
    (hcut : splitFirst (keySearch key) content = none) (hcomma : comma ∉ val.bytes)
    (hpage : storedLength content key val % pageSize ≠ 0) : CleanWrite region key val := by
  refine .inr ⟨content, get_holds h, .inr ⟨hpage, .inl ⟨?_, hcomma⟩⟩⟩
  rintro ⟨before, after, hfound, _⟩
  rw [hcut] at hfound
  exact absurd hfound (by simp)

/-- An SSID and then a password, into the cleared region. -/
theorem refines_two_writes : ∃ first second : Region,
    let ssid : Credential × CStr := (.ssid, .ofBytes (lit "home"))
    let password : Credential × CStr := (.password, .ofBytes (lit "a=b"))
    let trace := [⟨first, password, second⟩, ⟨zeroRegion, ssid, first⟩]
    Run credentialKeys.write zeroRegion trace second ∧
      Along (fun older taken ↦ credentialKeys.SameReads taken.after
        (credentialKeys.acknowledged (taken :: older))) trace := by
  obtain ⟨first, second, hwrite, hholds, hwrite', _⟩ := two_writes
  have hssid : credentialKeys.write zeroRegion (.ssid, .ofBytes (lit "home")) = some first :=
    credentialKeys.write_of_ok hwrite
  have hpassword : credentialKeys.write first (.password, .ofBytes (lit "a=b")) = some second :=
    credentialKeys.write_of_ok hwrite'
  have hrun := Run.step (.step .refl hssid) hpassword
  refine ⟨first, second, hrun, (refines_iff hrun).mpr ?_⟩
  intro taken hmem
  simp only [List.mem_cons, List.not_mem_nil, or_false] at hmem
  obtain rfl | rfl := hmem
  · show CleanWrite first Credential.password.key (.ofBytes (lit "a=b"))
    exact cleanWrite_new hholds (by decide) (by decide) (by decide)
  · show CleanWrite zeroRegion Credential.ssid.key (.ofBytes (lit "home"))
    exact cleanWrite_new zeroRegion_holds (by decide) (by decide) (by decide)

end DirtieNode.Flashmem
