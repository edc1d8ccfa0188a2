import DirtieNode.Flashmem.Handlers
import DirtieNode.Flashmem.Isolation

/-!
# Interrupted writes

The flash after some of the three writes of `flash_write_handler`, and which credentials are found
in it. Neither of two of the three keys ends in the other one, so a write adds its own key and no
other.
-/

namespace DirtieNode.Flashmem

open CString State Transition

/-! ## The three keys -/

/-- The keys of the firmware pass the check. -/
theorem Credential.key_ok (field : Credential) : ¬ badKey field.key := by
  cases field <;> decide

/-- The keys of the firmware are not empty. -/
theorem Credential.key_ne_nil (field : Credential) : field.key.bytes ≠ [] := by
  cases field <;> decide

/-- None of the keys ends in another one. -/
theorem Credential.key_apart {field other : Credential} (h : other ≠ field) :
    ¬ other.key.bytes <:+ field.key.bytes := by
  cases field <;> cases other <;> first | exact absurd rfl h | decide

section Presence

variable {content final : List UInt8} {field other : Credential} {val : CStr} {text : CtxText}

/-- A written key is found. -/
theorem lookup_written (hstored : stored content field.key val = some final) :
    lookup final field.key ≠ none := by
  by_cases hsplice : SpliceRefused content field.key val
  · obtain rfl : content = final := eq_of_spliceRefused hsplice hstored
    obtain ⟨before, after, hcut, _⟩ := hsplice
    simp [lookup_eq_some hcut]
  · obtain ⟨rest, _, hlookup⟩ := lookup_stored field.key_ok hstored hsplice
    simp [hlookup]

/-- The other keys are found where they were found before. -/
theorem lookup_other (hitems : Itemized content) (hother : other ≠ field)
    (hstored : stored content field.key val = some final) :
    lookup final other.key = none ↔ lookup content other.key = none := by
  have hseparate := separate_of_not_suffix (Credential.key_apart hother)
    (Credential.key_apart (Ne.symm hother)) content val
  have hvalue := (values_stored_iff field.key_ok field.key_ne_nil other.key_ok other.key_ne_nil
    hitems hstored).mpr (.inr hseparate)
  rw [← Option.map_eq_none_iff (f := unescape), hvalue, Option.map_eq_none_iff]

/-- The string that a number of accepted upserts leaves. -/
def storedAll (text : CtxText) (content : List UInt8) (done : List Credential) :
    Option (List UInt8) :=
  done.foldlM (fun content field ↦ stored content field.key (text.cstr field.offset)) content

/-- A credential is found after these writes: it was in the store before, or it is one of them. -/
def Present (content : List UInt8) (done : List Credential) (field : Credential) : Prop :=
  lookup content field.key ≠ none ∨ field ∈ done

/-- The writes add their own credentials, and lose none. -/
theorem lookup_storedAll {done : List Credential} (hitems : Itemized content)
    (hstored : storedAll text content done = some final) (field : Credential) :
    lookup final field.key ≠ none ↔ Present content done field := by
  unfold Present
  induction done generalizing content with
  | nil =>
      obtain rfl := Option.some.inj hstored
      simp
  | cons first done ih =>
      simp only [storedAll, List.foldlM_cons, bind, Option.bind_eq_some_iff] at hstored
      obtain ⟨next, hnext, hrest⟩ := hstored
      rw [ih (itemized_stored first.key_ok hitems hnext) hrest, List.mem_cons]
      by_cases hfirst : field = first
      · have hwritten := lookup_written hnext
        simp [hfirst, hwritten]
      · simp [hfirst, lookup_other hitems hfirst hnext]

end Presence

/-! ## The region -/

/-- These writes succeed, one after the other. -/
def writeAll (text : CtxText) (region : Region) (done : List Credential) : Option Region :=
  done.foldlM (fun region field ↦ writeStep region (field.key, text.cstr field.offset)) region

/-- The writes of `flash_write_handler`, in order. -/
def credentials : List Credential :=
  [.ssid, .password, .contract]

/-- The handler succeeds when all three of them do. -/
theorem flashWriteHandler_ok_iff {ctx ctx' : AppCtx} {region region' : Region} :
    flashWriteHandler byteStore ctx region = some (.ok, ctx', region') ↔
      writeAll ctx.text region credentials = some region' ∧
        ctx' = { ctx with flashWritten := true } := by
  have hwrite : ∀ (field : Credential) (region : Region),
      writeStep region (field.key, ctx.text.cstr field.offset) =
        (writeCredential byteStore field ctx region).bind fun result ↦
          if result.1 = .ok then some result.2 else none := by
    intro field region
    unfold writeStep writeCredential byteStore
    dsimp only
    split
    · rename_i hok
      simp [hok]
    · rename_i hother
      cases hrun : write field.key (ctx.text.cstr field.offset) region with
      | none => rfl
      | some result =>
          have herr : result.1 ≠ .ok := fun herr ↦ hother result.2 (by rw [hrun, ← herr])
          simp [herr]
  simp only [writeAll, credentials, List.foldlM_cons, List.foldlM_nil, hwrite, flashWriteHandler,
    bind, pure]
  cases writeCredential byteStore .ssid ctx region with
  | none => simp
  | some first =>
      by_cases hfirst : first.1 = .ok
      · simp only [hfirst, Option.bind_some, ne_eq, not_true_eq_false, if_false, if_true]
        cases writeCredential byteStore .password ctx first.2 with
        | none => simp
        | some second =>
            by_cases hsecond : second.1 = .ok
            · simp only [hsecond, Option.bind_some, not_true_eq_false, if_false, if_true]
              cases writeCredential byteStore .contract ctx second.2 with
              | none => simp
              | some third =>
                  by_cases hthird : third.1 = .ok
                  · simp [hthird, and_comm, eq_comm]
                  · simp [hthird]
            · simp [hsecond]
      · simp [hfirst]

/-- A programmed image starts with the string of its buffer. -/
theorem image_starts {buf s : List UInt8} {region region' : Region} (hbuf : buf.length = nvsSize)
    (h : Holds buf s)
    (hrun : doFlashEraseProgram ⟨buf, nvsSize, writeSize s.length⟩ region = some region') :
    s <+: region'.bytes := by
  have hlen : s.length < nvsSize := hbuf ▸ h.length_lt
  obtain ⟨other, hother, hbytes⟩ := doFlashEraseProgram_eq buf hbuf (writeSize_le hlen) region
  obtain rfl := Option.some.inj (hrun.symm.trans hother)
  have hcovers : s.length ≤ writeSize s.length := by
    unfold writeSize
    split <;> omega
  have hstarts : s <+: buf.take (writeSize s.length) := by
    obtain ⟨rest, rfl, _⟩ := h
    exact List.prefix_take_iff.mpr ⟨List.prefix_append _ _, hcovers⟩
  rw [hbytes]
  exact hstarts.trans (List.prefix_append _ _)

/-- A successful write leaves the string of its buffer at the start of the region. -/
theorem write_starts {key val : CStr} {region region' : Region} {buf s : List UInt8}
    (hwrite : write key val region = some (.ok, region'))
    (hupsert : upsertKey key val region region.bytes = some (.ok, region, buf))
    (hbuf : Holds buf s) (hval : val.bytes.length ≤ maxValSize) : s <+: region'.bytes := by
  simp only [write, Nat.not_lt.mpr hval, if_false, hupsert, bind, pure, Option.bind_some, ne_eq,
    not_true_eq_false, strlen_holds hbuf, Option.bind_eq_some_iff, Option.some.injEq,
    Prod.mk.injEq, true_and] at hwrite
  obtain ⟨_, himage, rfl⟩ := hwrite
  exact image_starts (upsertKey_length region.size hupsert) hbuf himage

section Images

variable {content : List UInt8} {text : CtxText} {region region' : Region}

/-- After a number of successful writes the region holds the string of the upserts, unless the last
one fills its last page. -/
theorem writeAll_cases {done : List Credential} (h : Holds region.bytes content)
    (hrun : writeAll text region done = some region') :
    ∃ final, storedAll text content done = some final ∧
      ((done = [] ∨ final.length % pageSize ≠ 0) ∧ Holds region'.bytes final ∨
        (done ≠ [] ∧ final.length % pageSize = 0) ∧ 0 ∉ region'.bytes ∧
          final <+: region'.bytes) := by
  induction done generalizing region content with
  | nil =>
      obtain rfl := Option.some.inj hrun
      exact ⟨content, rfl, .inl ⟨.inl rfl, h⟩⟩
  | cons first done ih =>
      simp only [writeAll, List.foldlM_cons, bind, Option.bind_eq_some_iff] at hrun
      obtain ⟨next, hfirst, hrest⟩ := hrun
      have hwrite := writeStep_eq_some.mp hfirst
      obtain ⟨_, final, buf, hbefore, _, hval, hstored, _, hupsert, hbuf, hpart, hfull⟩ :=
        write_ok hwrite
      obtain rfl := h.unique hbefore
      have hall : ∀ last, storedAll text final done = some last →
          storedAll text content (first :: done) = some last := by
        intro last hlast
        simp only [storedAll, List.foldlM_cons, hstored, bind, Option.bind_some]
        exact hlast
      by_cases hpage : final.length % pageSize = 0
      · -- there is no further write behind one that loses the terminator
        cases done with
        | nil =>
            obtain rfl := Option.some.inj hrest
            exact ⟨final, hall final rfl, .inr ⟨⟨by simp, hpage⟩, hfull hpage,
              write_starts hwrite hupsert hbuf hval⟩⟩
        | cons second done =>
            simp only [List.foldlM_cons, bind, Option.bind_eq_some_iff] at hrest
            obtain ⟨_, hsecond, _⟩ := hrest
            obtain ⟨_, _, _, hagain, _⟩ := write_ok (writeStep_eq_some.mp hsecond)
            exact absurd hagain.zero_mem (hfull hpage)
      · obtain ⟨last, hlast, hends | hends⟩ := ih (hpart hpage) hrest
        · refine ⟨last, hall last hlast, .inl ⟨.inr ?_, hends.2⟩⟩
          rcases hends.1 with rfl | hinside
          · obtain rfl := Option.some.inj hlast
            exact hpage
          · exact hinside
        · exact ⟨last, hall last hlast, .inr ⟨⟨by simp, hends.1.2⟩, hends.2⟩⟩

/-- Erased flash. -/
def erasedRegion : Region :=
  ⟨List.replicate nvsSize 0xFF, List.length_replicate⟩

/-- The erased region has ones everywhere. -/
theorem flashRangeErase_eq (region : Region) :
    flashRangeErase region nvsSize = some erasedRegion := by
  obtain ⟨erased, herase, hbytes⟩ :=
    Region.store_eq region (List.replicate nvsSize 0xFF) (by simp)
  have hdrop : region.bytes.drop nvsSize = [] := by simp [region.size]
  rw [List.length_replicate, hdrop, List.append_nil] at hbytes
  rw [flashRangeErase, herase]
  cases erased
  simpa [erasedRegion] using hbytes

/-- `initialize_flash` clears erased flash, if it has memory. -/
theorem initializeFlash_erased (mallocOk : Bool) :
    initializeFlash false mallocOk erasedRegion =
      some (if mallocOk then (.ok, zeroRegion) else (.malloc, erasedRegion)) := by
  have hall : erasedRegion.bytes.any (· != 0xFF) = false := by
    simp [erasedRegion]
  cases mallocOk with
  | false => simp [initializeFlash, hall]
  | true =>
      have hclear := initializeFlash_clear erasedRegion
      simp only [initializeFlash, Bool.not_true, Bool.false_and, Bool.false_eq_true,
        if_false] at hclear
      simpa [initializeFlash, hall] using hclear

end Images

/-- The region when the power is lost in `flash_write_handler`: a number of its writes are done, and
the next one may have erased the flash. -/
structure Interrupted (text : CtxText) (prior : Region) (done : List Credential) (erased : Bool)
    (image : Region) : Prop where
  inOrder : done <+: credentials
  next : erased = true → done ≠ credentials
  run : ∃ region, writeAll text prior done = some region ∧
    (if erased then flashRangeErase region nvsSize else some region) = some image

end DirtieNode.Flashmem
