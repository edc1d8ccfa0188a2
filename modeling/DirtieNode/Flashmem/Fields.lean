import DirtieNode.AccessPoint.Credentials
import DirtieNode.Flashmem.Overwrite
import DirtieNode.Flashmem.Restore

/-!
# The arrays that a boot writes to

`read` copies the escaped text into the caller's array and removes the backslashes there, so the
array has to have room for the text and not for the value. `keeps_fields_iff` says when the three
reads of a boot stay inside their arrays, and `token_over_hub` what happens otherwise.
-/

namespace DirtieNode.Flashmem

open CString State AccessPoint

/-- `flash_write_handler` has returned `DT_ERR_OK`, and in the string that it has put into flash
the strings of the context stand under their keys. -/
structure StoredBy (ctx : AppCtx) (prior region : Region) (final : List UInt8) : Prop where
  returned : ∃ ctx', flashWriteHandler byteStore ctx prior = some (.ok, ctx', region)
  written : ∃ content, Holds prior.bytes content ∧
    storedAll ctx.text content credentials = some final
  values : ∀ field : Credential, ∃ before rest, itemText rest = [] ∧
    splitFirst (keySearch field.key) final =
      some (before, escChars (ctx.text.str field.offset) ++ rest)

/-- A boot restores the credentials of a region inside their arrays: the reads, the copies of the
escaped texts included, do not leave an array of 64 bytes, and the boot changes nothing outside of
the three arrays, so the location of the hub is still there. -/
structure KeepsFields (region : Region) : Prop where
  inside : ∀ (field : Credential) (array : List UInt8), array.length = 64 →
    ∃ array', read field.key region array 0 = some (.ok, array')
  frame : ∀ (field : Credential) (boot : AppCtx), ∃ text,
    readCredential byteStore field boot region = some (.ok, { boot with text := text }) ∧
      ∀ i, i < field.offset ∨ field.offset + 64 ≤ i → text.bytes[i]? = boot.text.bytes[i]?
  hub : ∀ (mallocOk : Bool) (boot : AppCtx), ∃ ctx,
    flashInitHandler byteStore mallocOk boot region = some (.ok, ctx, region) ∧
      ctx.text.bytes.drop hubLoc = boot.text.bytes.drop hubLoc

/-- What `read` copies of a value before it removes the backslashes. -/
def copiedText (val : List UInt8) : List UInt8 :=
  itemText (escChars val)

/-- The rest of the items does not matter to the copied text. -/
theorem itemText_escChars (val : List UInt8) {rest : List UInt8} (hrest : itemText rest = []) :
    itemText (escChars val ++ rest) = copiedText val := by
  by_cases hcomma : comma ∈ escChars val
  · exact itemText_append_of_mem hcomma rest
  · rw [itemText_append hcomma hrest, copiedText, itemText_eq_self hcomma]

section Boot

variable {region : Region} {content : List UInt8} {field : Credential}
  {before after : List UInt8}

/-- A read of a text that is shorter than its array changes nothing outside of it. -/
theorem readCredential_frame (h : Holds region.bytes content)
    (hcut : splitFirst (keySearch field.key) content = some (before, after))
    (hlen : (itemText after).length < 64) (boot : AppCtx) : ∃ text,
    readCredential byteStore field boot region = some (.ok, { boot with text := text }) ∧
      ∀ i, i < field.offset ∨ field.offset + 64 ≤ i → text.bytes[i]? = boot.text.bytes[i]? := by
  have hoffset : field.offset + 64 ≤ 192 := by cases field <;> decide
  have hsize := boot.text.size
  have hroom : field.offset + (itemText after).length < boot.text.bytes.length := by omega
  have hread := read_found boot.text.bytes field.offset h field.key_ok hcut
  rw [if_pos hroom] at hread
  have hframe : ∀ i, i < field.offset ∨ field.offset + 64 ≤ i →
      (restored boot.text.bytes field.offset (itemText after))[i]? = boot.text.bytes[i]? :=
    fun i hi ↦ (restored_getElem? hroom (by omega)).trans (if_neg (by omega))
  let text : CtxText := ⟨_, (restored_length hroom).trans hsize,
    (hframe 255 (by omega)).trans boot.text.ends⟩
  have htext : CtxText.ofBytes (restored boot.text.bytes field.offset (itemText after)) =
      some text := dif_pos ⟨text.size, text.ends⟩
  exact ⟨text, by simp [readCredential, byteStore, hread, htext], hframe⟩

/-- The three reads of a boot, one after the other. -/
theorem flashInitHandler_frame (h : Holds region.bytes content)
    (hframe : ∀ (field : Credential) (boot : AppCtx), ∃ text,
      readCredential byteStore field boot region = some (.ok, { boot with text := text }) ∧
        ∀ i, i < field.offset ∨ field.offset + 64 ≤ i → text.bytes[i]? = boot.text.bytes[i]?)
    (mallocOk : Bool) (boot : AppCtx) : ∃ ctx,
    flashInitHandler byteStore mallocOk boot region = some (.ok, ctx, region) ∧
      ctx.text.bytes.drop hubLoc = boot.text.bytes.drop hubLoc := by
  obtain ⟨first, hssid, hfirst⟩ := hframe .ssid boot
  obtain ⟨second, hpassword, hsecond⟩ := hframe .password { boot with text := first }
  obtain ⟨third, hcontract, hthird⟩ := hframe .contract { boot with text := second }
  have hinit : byteStore.initializeFlash false mallocOk region = some (.ok, region) :=
    initializeFlash_of_holds h mallocOk
  refine ⟨_, flashInitHandler_restoring hinit (.restored hssid hpassword hcontract), ?_⟩
  refine List.ext_getElem? fun i ↦ ?_
  have hbehind : ∀ field : Credential, field.offset + 64 ≤ hubLoc + i := by
    intro field
    have hoffset : field.offset + 64 ≤ hubLoc := by cases field <;> decide
    omega
  rw [List.getElem?_drop, List.getElem?_drop]
  exact ((hthird _ (.inr (hbehind .contract))).trans (hsecond _ (.inr (hbehind .password)))).trans
    (hfirst _ (.inr (hbehind .ssid)))

end Boot

/-- What the writes have left in flash: the string, or no terminator when it fills its last page. -/
theorem StoredBy.region_cases {ctx : AppCtx} {prior region : Region} {final : List UInt8}
    (h : StoredBy ctx prior region final) :
    final.length % pageSize ≠ 0 ∧ Holds region.bytes final ∨
      final.length % pageSize = 0 ∧ 0 ∉ region.bytes := by
  obtain ⟨⟨ctx', hrun⟩, ⟨content, hprior, hall⟩, _⟩ := h
  obtain ⟨other, hother, hregion⟩ :=
    writeAll_cases hprior (flashWriteHandler_ok_iff.mp hrun).1
  obtain rfl := Option.some.inj (hother.symm.trans hall)
  rcases hregion with ⟨hends, hholds⟩ | ⟨⟨_, hfull⟩, hlost, _⟩
  · exact .inl ⟨hends.resolve_left (by simp [credentials]), hholds⟩
  · exact .inr ⟨hfull, hlost⟩

/-- A value whose escaped text does not fit its array is copied over its end. -/
theorem copiedText_lt {ctx : AppCtx} {prior region : Region} {final : List UInt8}
    (h : StoredBy ctx prior region final) {field : Credential}
    (hinside : ∃ array', read field.key region (List.replicate 64 0) 0 = some (.ok, array')) :
    final.length % pageSize ≠ 0 ∧ (copiedText (ctx.text.str field.offset)).length < 64 := by
  obtain ⟨array', hread⟩ := hinside
  rcases h.region_cases with ⟨hpage, hholds⟩ | ⟨_, hlost⟩
  · refine ⟨hpage, ?_⟩
    obtain ⟨before, rest, hrest, hcut⟩ := h.values field
    rw [read_found _ _ hholds field.key_ok hcut, itemText_escChars _ hrest, Nat.zero_add,
      List.length_replicate] at hread
    by_contra hlong
    simp [hlong] at hread
  · rw [read_unterminated hlost field.key_ok] at hread
    simp at hread

/-- For every context, every region before the writes and whatever was stored: the boot stays in the
arrays exactly when the string in flash ends inside a page, and the escaped texts of the values fit
their arrays. -/
theorem keeps_fields_iff {ctx : AppCtx} {prior region : Region} {final : List UInt8}
    (h : StoredBy ctx prior region final) :
    KeepsFields region ↔
      final.length % pageSize ≠ 0 ∧
        ∀ field : Credential, (copiedText (ctx.text.str field.offset)).length < 64 := by
  constructor
  · intro hkeeps
    have hfits := fun field ↦
      copiedText_lt h (hkeeps.inside field (List.replicate 64 0) List.length_replicate)
    exact ⟨(hfits .ssid).1, fun field ↦ (hfits field).2⟩
  · rintro ⟨hpage, hshort⟩
    have hholds : Holds region.bytes final := by
      rcases h.region_cases with ⟨_, hholds⟩ | ⟨hfull, _⟩
      · exact hholds
      · exact absurd hfull hpage
    have hfound : ∀ field : Credential, ∃ before after,
        splitFirst (keySearch field.key) final = some (before, after) ∧
          (itemText after).length < 64 := by
      intro field
      obtain ⟨before, rest, hrest, hcut⟩ := h.values field
      exact ⟨before, _, hcut, by rw [itemText_escChars _ hrest]; exact hshort field⟩
    have hframe : ∀ (field : Credential) (boot : AppCtx), ∃ text,
        readCredential byteStore field boot region = some (.ok, { boot with text := text }) ∧
          ∀ i, i < field.offset ∨ field.offset + 64 ≤ i →
            text.bytes[i]? = boot.text.bytes[i]? := by
      intro field boot
      obtain ⟨before, after, hcut, hlen⟩ := hfound field
      exact readCredential_frame hholds hcut hlen boot
    refine ⟨fun field array harray ↦ ?_, hframe, flashInitHandler_frame hholds hframe⟩
    obtain ⟨before, after, hcut, hlen⟩ := hfound field
    exact ⟨_, by rw [read_found _ _ hholds field.key_ok hcut, if_pos (by omega)]⟩

/-! ## A fresh store -/

/-- Some of the strings of a context, with their keys. -/
def storedItems (text : CtxText) (fields : List Credential) : List (Credential × CStr) :=
  fields.map fun field ↦ (field, text.cstr field.offset)

/-- The strings of the context are no longer than a value may be. -/
theorem str_length_le (text : CtxText) (offset : Nat) : (text.str offset).length ≤ maxValSize := by
  have hprefix := (List.takeWhile_prefix (l := text.bytes.drop offset) (· != 0)).length_le
  rw [List.length_drop, text.size] at hprefix
  exact hprefix.trans (by unfold maxValSize; omega)

/-- An item of the context takes at most 521 bytes. -/
theorem newItem_length_le (field : Credential) (text : CtxText) (offset : Nat) :
    (newItem field.key (text.cstr offset)).length ≤ 521 := by
  have hkey : field.key.bytes.length ≤ 8 := by cases field <;> decide
  have hval : (text.str offset).length ≤ 256 := str_length_le text offset
  have hesc := escChars_length_le (text.str offset)
  simp only [newItem, keySearch, CtxText.cstr, List.length_append, List.length_singleton]
  omega

/-- A key that is not in the store gets an item behind the others. -/
theorem stored_new {items : List (Credential × CStr)} {field : Credential} {val : CStr}
    (hnew : field ∉ items.map Prod.fst)
    (hroom : (credentialText (items ++ [(field, val)])).length ≤ nvsSize - 1) :
    stored (credentialText items) field.key val =
      some (credentialText (items ++ [(field, val)])) := by
  have hcut : splitFirst (keySearch field.key) (credentialText items) = none := by
    cases hfound : splitFirst (keySearch field.key) (credentialText items) with
    | none => rfl
    | some cut =>
        have heq := splitFirst_eq hfound
        rw [credentialText_eq] at heq
        have hfree : ∀ item ∈ items.map fun item ↦ (item.1, escChars item.2.bytes),
            KeyFree item.2 := by
          simp only [List.forall_mem_map]
          exact fun item _ ↦ keyFree_escChars item.2
        obtain ⟨front, text, back, hitems, _⟩ :=
          occurrence_item hfree (heq.trans (List.append_assoc ..))
        have hmem : (field, text) ∈ items.map fun item ↦ (item.1, escChars item.2.bytes) := by
          rw [hitems]
          simp
        obtain ⟨item, hitem, hsame⟩ := List.mem_map.mp hmem
        exact absurd (List.mem_map.mpr ⟨item, hitem, (Prod.mk.inj hsame).1⟩) hnew
  have hwhole := credentialText_item items [] field val
  have hlast : credentialText [] = [] := rfl
  rw [hlast, List.append_nil] at hwhole
  rw [hwhole] at hroom ⊢
  simp only [List.length_append, List.length_singleton] at hroom
  rw [stored, hcut]
  dsimp only
  rw [if_pos (by omega), List.append_cons]

/-- All three strings fit the store. -/
theorem storedItems_length (text : CtxText) {fields : List Credential} (h : fields.length ≤ 3) :
    (credentialText (storedItems text fields)).length ≤ nvsSize - 1 := by
  have hbound : (credentialText (storedItems text fields)).length ≤ 522 * fields.length := by
    clear h
    induction fields with
    | nil => simp [credentialText, storedItems]
    | cons field fields ih =>
        have hitem := newItem_length_le field text field.offset
        simp only [credentialText, storedItems, List.map_cons, storeText_cons, List.length_append,
          List.length_cons] at ih ⊢
        omega
  unfold nvsSize
  omega

/-- The next credential is written behind the others. -/
theorem stored_next (text : CtxText) {done : List Credential} {field : Credential}
    (hnodup : (done ++ [field]).Nodup) (hlen : (done ++ [field]).length ≤ 3) :
    stored (credentialText (storedItems text done)) field.key (text.cstr field.offset) =
      some (credentialText (storedItems text (done ++ [field]))) := by
  have hnew : field ∉ done := fun hmem ↦
    (List.nodup_append.mp hnodup).2.2 field hmem field (List.mem_singleton_self field) rfl
  have hitems : storedItems text (done ++ [field]) =
      storedItems text done ++ [(field, text.cstr field.offset)] := List.map_append
  have hkeys : (storedItems text done).map Prod.fst = done := by
    simp [storedItems, Function.comp_def]
  rw [hitems]
  exact stored_new (by rwa [hkeys]) (hitems ▸ storedItems_length text hlen)

/-- Different credentials are written one behind the other. -/
theorem storedAll_items (text : CtxText) {done fields : List Credential}
    (hnodup : (done ++ fields).Nodup) (hlen : (done ++ fields).length ≤ 3) :
    storedAll text (credentialText (storedItems text done)) fields =
      some (credentialText (storedItems text (done ++ fields))) := by
  induction fields generalizing done with
  | nil => rw [List.append_nil]; rfl
  | cons field fields ih =>
      rw [List.append_cons] at hnodup hlen ⊢
      have hstored := stored_next text (List.nodup_append.mp hnodup).1
        (by rw [List.length_append] at hlen; omega)
      rw [← ih hnodup hlen]
      simp only [storedAll, List.foldlM_cons, hstored]
      rfl

/-- Into the cleared region the handler stores what it is given. -/
theorem storedBy_fresh {ctx ctx' : AppCtx} {region : Region}
    (h : flashWriteHandler byteStore ctx zeroRegion = some (.ok, ctx', region)) :
    StoredBy ctx zeroRegion region (credentialText (storedItems ctx.text credentials)) := by
  refine ⟨⟨ctx', h⟩, ⟨[], zeroRegion_holds, ?_⟩, fun field ↦ ?_⟩
  · have hall : storedAll ctx.text (credentialText (storedItems ctx.text [])) credentials =
        some (credentialText (storedItems ctx.text ([] ++ credentials))) :=
      storedAll_items ctx.text (by decide) (by decide)
    exact hall
  · obtain ⟨front, back, hfields⟩ : ∃ front back, credentials = front ++ field :: back :=
      List.append_of_mem (by cases field <;> decide)
    have hitems : storedItems ctx.text credentials = storedItems ctx.text front ++
        (field, ctx.text.cstr field.offset) :: storedItems ctx.text back := by
      rw [hfields]
      simp [storedItems]
    have hnodup : ((storedItems ctx.text front ++ (field, ctx.text.cstr field.offset) ::
        storedItems ctx.text back).map Prod.fst).Nodup := by
      have hfields : (storedItems ctx.text credentials).map Prod.fst = credentials := rfl
      rw [← hitems, hfields]
      decide
    have hcut := splitFirst_credential hnodup
    rw [← hitems] at hcut
    refine ⟨_, _, ?_, hcut⟩
    cases back <;> simp [storedItems, credentialText, itemText]

/-- Where no string on the way fills its last page, all of the writes succeed. -/
theorem writeAll_items (text : CtxText) {done fields : List Credential} {region : Region}
    (h : Holds region.bytes (credentialText (storedItems text done)))
    (hnodup : (done ++ fields).Nodup) (hlen : (done ++ fields).length ≤ 3)
    (hpages : ∀ front ∈ fields.inits, front ≠ [] →
      (credentialText (storedItems text (done ++ front))).length % pageSize ≠ 0) :
    ∃ region', writeAll text region fields = some region' := by
  induction fields generalizing done region with
  | nil => exact ⟨region, rfl⟩
  | cons field fields ih =>
      rw [List.append_cons] at hnodup hlen
      have hroom : (done ++ [field]).length ≤ 3 := by
        rw [List.length_append] at hlen
        omega
      have hfits := storedItems_length text hroom
      obtain ⟨_, next, _, _, hwrite, hnext, _⟩ := write_stored h field.key_ok
        (str_length_le text field.offset)
        (stored_next text (List.nodup_append.mp hnodup).1 hroom) (by unfold nvsSize at *; omega)
      have hpage := hpages [field] (by simp) (by simp)
      obtain ⟨last, hlast⟩ := ih (hnext hpage) hnodup hlen fun front hfront _ ↦ by
        rw [← List.append_cons]
        exact hpages (field :: front) (by simpa using hfront) (by simp)
      have hstep : writeStep region (field.key, text.cstr field.offset) = some next :=
        writeStep_eq_some.mpr hwrite
      refine ⟨last, ?_⟩
      simp only [writeAll, List.foldlM_cons, hstep]
      exact hlast

/-! ## Two boots -/

/-- The body of a request is accepted, and the strings on the way into flash end inside a page. -/
def acceptedWith (json : CStr) (test : CtxText → Bool) : Bool :=
  (parseWifiCredentials (json.bytes ++ [0]) bootCtx).any fun result ↦
    result.1 && (credentials.inits.tail.all fun done ↦
      decide ((credentialText (storedItems result.2.text done)).length % pageSize ≠ 0)) &&
    test result.2.text

/-- The credentials of such a request are written into the cleared region. -/
theorem exists_storedBy {json : CStr} {test : CtxText → Bool} (h : acceptedWith json test = true) :
    ∃ ctx region, parseWifiCredentials (json.bytes ++ [0]) bootCtx = some (true, ctx) ∧
      test ctx.text = true ∧
      StoredBy ctx zeroRegion region (credentialText (storedItems ctx.text credentials)) := by
  unfold acceptedWith at h
  cases hparse : parseWifiCredentials (json.bytes ++ [0]) bootCtx with
  | none => simp [hparse] at h
  | some result =>
      obtain ⟨accepted, ctx⟩ := result
      simp only [hparse, Option.any_some, Bool.and_eq_true, List.all_eq_true,
        decide_eq_true_eq] at h
      obtain ⟨⟨rfl, hpages⟩, htest⟩ := h
      have hempty : Holds zeroRegion.bytes (credentialText (storedItems ctx.text [])) :=
        zeroRegion_holds
      have hinside : ∀ front ∈ credentials.inits, front ≠ [] →
          (credentialText (storedItems ctx.text ([] ++ front))).length % pageSize ≠ 0 := by
        intro front hfront hne
        refine hpages front ?_
        cases front with
        | nil => exact absurd rfl hne
        | cons first front => simpa [credentials] using hfront
      obtain ⟨region, hrun⟩ :=
        writeAll_items ctx.text hempty (by decide) (by decide) hinside
      exact ⟨ctx, region, rfl, htest, storedBy_fresh (flashWriteHandler_ok_iff.mpr ⟨hrun, rfl⟩)⟩

/-- An SSID with a comma and a password with an equals sign. -/
theorem keeps_fields_special : ∃ (ctx : AppCtx) (region : Region) (final : List UInt8),
    StoredBy ctx zeroRegion region final ∧ KeepsFields region := by
  have htest : acceptedWith
      (.ofBytes (lit "\"ssid\":\"a,b\",\"password\":\"c=d\",\"token\":\"t\""))
      (fun text ↦ decide
          ((credentialText (storedItems text credentials)).length % pageSize ≠ 0) &&
        credentials.all fun field ↦
          decide ((copiedText (text.str field.offset)).length < 64)) = true := by
    decide +kernel
  obtain ⟨ctx, region, -, htest, hstored⟩ := exists_storedBy htest
  simp only [Bool.and_eq_true, decide_eq_true_eq, List.all_eq_true] at htest
  refine ⟨ctx, region, _, hstored, (keeps_fields_iff hstored).mpr ⟨htest.1, fun field ↦ ?_⟩⟩
  exact htest.2 field (by cases field <;> decide)

/-- A token of 63 equals signs is escaped to 126 bytes, which `read` copies over the location of the
hub. -/
theorem token_over_hub : ¬ ∀ (json : CStr) (boot ctx : AppCtx) (prior region : Region)
    (final : List UInt8), parseWifiCredentials (json.bytes ++ [0]) boot = some (true, ctx) →
      (∀ field : Credential, (ctx.text.str field.offset).length ≤ 63) →
      StoredBy ctx prior region final → KeepsFields region := by
  intro hclaim
  have htest : acceptedWith
      (.ofBytes (lit "\"ssid\":\"s\",\"password\":\"p\",\"token\":\"" ++
        List.replicate 63 equals ++ lit "\""))
      (fun text ↦ (credentials.all fun field ↦ decide ((text.str field.offset).length ≤ 63)) &&
        decide ((copiedText (text.str (Credential.offset .contract))).length = 126)) = true := by
    decide +kernel
  obtain ⟨ctx, region, hparse, htest, hstored⟩ := exists_storedBy htest
  simp only [Bool.and_eq_true, decide_eq_true_eq, List.all_eq_true] at htest
  have hkeeps := hclaim _ bootCtx ctx zeroRegion region _ hparse
    (fun field ↦ htest.1 field (by cases field <;> decide)) hstored
  have hfits := copiedText_lt hstored
    (hkeeps.inside .contract (List.replicate 64 0) List.length_replicate)
  have hlong := htest.2
  omega

end DirtieNode.Flashmem
