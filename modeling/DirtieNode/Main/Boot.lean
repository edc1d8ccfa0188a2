import DirtieNode.Flashmem.Interrupted
import DirtieNode.Main.Steps

/-!
# The boot after a power loss

What `flash_init_handler` does over the flash that an interrupted `flash_write_handler` leaves. It
fails for good over a store with an `ssid` and without one of the other two credentials, so a first
provisioning must not be interrupted between its writes.
-/

namespace DirtieNode.Main

open CString Flashmem Logger State Transition Util

/-! ## Reads into the arrays -/

section Reads

variable {content text : List UInt8} {image : Region} {field : Credential} {ctx : AppCtx}

/-- A read of a key that is missing changes nothing. -/
theorem readCredential_absent (ctx : AppCtx) (h : Holds image.bytes content)
    (hnone : lookup content field.key = none) :
    readCredential byteStore field ctx image = some (.keynotfound, ctx) := by
  have hread : byteStore.read field.key image ctx.text.bytes field.offset =
      some (.keynotfound, ctx.text.bytes) :=
    read_absent h field.key_ok (lookup_eq_none_iff.mp hnone)
  have htext : CtxText.ofBytes ctx.text.bytes = some ctx.text :=
    dif_pos ⟨ctx.text.size, ctx.text.ends⟩
  simp [readCredential, hread, htext]

/-- A text that fits the arrays from its own one on is restored. -/
theorem readCredential_fits (ctx : AppCtx) (h : Holds image.bytes content)
    (hsome : lookup content field.key = some text) (hfits : field.offset + text.length < 256) :
    ∃ block, readCredential byteStore field ctx image =
      some (.ok, { ctx with text := block }) := by
  obtain ⟨⟨before, after⟩, hcut, rfl⟩ := Option.map_eq_some_iff.mp hsome
  dsimp only at hfits
  have hroom : field.offset + (itemText after).length < ctx.text.bytes.length := by
    rwa [ctx.text.size]
  have hread := read_found ctx.text.bytes field.offset h field.key_ok hcut
  rw [if_pos hroom] at hread
  have hsize := (restored_length hroom).trans ctx.text.size
  have hends : (restored ctx.text.bytes field.offset (itemText after))[255]? = some 0 := by
    rw [restored_getElem? hroom (.inr (by omega))]
    split
    · rfl
    · exact ctx.text.ends
  refine ⟨⟨_, hsize, hends⟩, ?_⟩
  have htext : CtxText.ofBytes (restored ctx.text.bytes field.offset (itemText after)) =
      some ⟨_, hsize, hends⟩ :=
    dif_pos ⟨hsize, hends⟩
  have hstore : byteStore.read field.key image ctx.text.bytes field.offset =
      some (.ok, restored ctx.text.bytes field.offset (itemText after)) := hread
  simp [readCredential, hstore, htext]

/-- A longer text is copied over the end of the arrays. -/
theorem readCredential_overflow (ctx : AppCtx) (h : Holds image.bytes content)
    (hsome : lookup content field.key = some text) (hlong : 256 ≤ field.offset + text.length) :
    readCredential byteStore field ctx image = none := by
  obtain ⟨⟨before, after⟩, hcut, rfl⟩ := Option.map_eq_some_iff.mp hsome
  dsimp only at hlong
  have hread := read_found ctx.text.bytes field.offset h field.key_ok hcut
  rw [if_neg (by rw [ctx.text.size]; omega)] at hread
  have hstore : byteStore.read field.key image ctx.text.bytes field.offset = none := hread
  simp [readCredential, hstore]

/-- What a successful read says about the store. -/
theorem readCredential_ok {ctx' : AppCtx} (h : Holds image.bytes content)
    (hread : readCredential byteStore field ctx image = some (.ok, ctx')) :
    ∃ text, lookup content field.key = some text ∧ field.offset + text.length < 256 := by
  cases hlookup : lookup content field.key with
  | none =>
      rw [readCredential_absent ctx h hlookup] at hread
      simp at hread
  | some text =>
      refine ⟨text, rfl, Nat.lt_of_not_le fun hlong ↦ ?_⟩
      rw [readCredential_overflow ctx h hlookup hlong] at hread
      simp at hread

end Reads

/-! ## The boot -/

/-- The flash has a text under each of the three keys. -/
def Complete (image : Region) : Prop :=
  ∃ content, get image.bytes = some content ∧
    ∀ field : Credential, lookup content field.key ≠ none

/-- The texts in the store fit the arrays. -/
def Fits (content : List UInt8) : Prop :=
  ∀ field : Credential, ∀ text ∈ lookup content field.key, field.offset + text.length < 256

/-- `flash_init_handler` succeeds at boot and sets its flag, and `update_state` leaves `FLASH_INIT`
in the direction of the credentials that are there. -/
def Boots (hub : Hub) (mallocOk : Bool) (image : Region) : Prop :=
  ∃ ctx image', flashInitHandler byteStore mallocOk { text := bootText hub } image =
      some (.ok, ctx, image') ∧ ctx.flashInitd = true ∧
    ∀ env logs sent,
      (Complete image → (updateState env ⟨ctx, logs, sent⟩).ctx.loopState = .mqttInit) ∧
        (¬ Complete image → (updateState env ⟨ctx, logs, sent⟩).ctx.loopState = .wifiConfig)

variable {content : List UInt8} {image : Region} {hub : Hub} {mallocOk : Bool}

/-- A store is complete when it has all three keys. -/
theorem complete_iff (h : Holds image.bytes content) :
    Complete image ↔ ∀ field : Credential, lookup content field.key ≠ none := by
  simp [Complete, get_holds h]

/-- `update_state` behind the call, from the flags that it has set. -/
theorem updateState_boot (block : CtxText) (configd : Bool) (env : Env) (logs : Logs)
    (sent : List Publication) :
    let ctx : AppCtx :=
      { text := block, wifiConfigd := configd, flashInitd := true, flashWritten := configd }
    (updateState env ⟨ctx, logs, sent⟩).ctx.loopState =
      if configd then .mqttInit else .wifiConfig := by
  cases configd <;>
    simp [updateState, updateSwitch, updateReset, updatePublish, updateDump, AppCtx.ready]

/-- A boot that finds no `ssid` waits for a request. -/
theorem boots_of_absent {region : Region}
    (hinit : initializeFlash false mallocOk image = some (.ok, region))
    (h : Holds region.bytes content) (hnone : lookup content Credential.ssid.key = none)
    (hincomplete : ¬ Complete image) : Boots hub mallocOk image := by
  have hread := readCredential_absent { text := bootText hub } h hnone
  have hstore : byteStore.initializeFlash false mallocOk image = some (.ok, region) := hinit
  refine ⟨_, region, flashInitHandler_restoring hstore (.unconfigured hread), rfl,
    fun env logs sent ↦ ⟨fun hcomplete ↦ absurd hcomplete hincomplete, fun _ ↦ ?_⟩⟩
  exact updateState_boot (bootText hub) false env logs sent

/-- A boot over a terminated store succeeds when there is no `ssid`, or everything. -/
theorem boots_iff_of_holds (h : Holds image.bytes content) :
    Boots hub mallocOk image ↔
      lookup content Credential.ssid.key = none ∨
        (∀ field : Credential, lookup content field.key ≠ none) ∧ Fits content := by
  have hinit : initializeFlash false mallocOk image = some (.ok, image) :=
    initializeFlash_of_holds h mallocOk
  constructor
  · rintro ⟨ctx, image', hrun, -, -⟩
    obtain ⟨hstore, hread⟩ := flashInitHandler_ok hrun
    obtain rfl : image = image' :=
      (Prod.mk.inj (Option.some.inj (hinit.symm.trans hstore))).2
    generalize herr : DtErr.ok = err at hread
    cases hread with
    | unconfigured hssid =>
        cases hlookup : lookup content Credential.ssid.key with
        | none => exact .inl rfl
        | some text =>
            by_cases hfits : Credential.ssid.offset + text.length < 256
            · obtain ⟨block, hfound⟩ := readCredential_fits _ h hlookup hfits
              rw [hfound] at hssid
              simp at hssid
            · rw [readCredential_overflow _ h hlookup (by omega)] at hssid
              simp at hssid
    | noSsid _ hfailed | noPassword _ _ hfailed | noContract _ _ _ hfailed =>
        exact absurd herr.symm hfailed
    | restored hssid hpassword hcontract =>
        obtain ⟨ssid, hssid, hssidFits⟩ := readCredential_ok h hssid
        obtain ⟨password, hpassword, hpasswordFits⟩ := readCredential_ok h hpassword
        obtain ⟨contract, hcontract, hcontractFits⟩ := readCredential_ok h hcontract
        refine .inr ⟨fun field ↦ ?_, fun field text htext ↦ ?_⟩
        · cases field <;> simp [hssid, hpassword, hcontract]
        · cases field <;> simp only [hssid, hpassword, hcontract, Option.mem_def,
            Option.some.injEq] at htext <;> subst htext <;> assumption
  · rintro (hnone | ⟨hall, hfits⟩)
    · exact boots_of_absent hinit h hnone fun hcomplete ↦ (complete_iff h).mp hcomplete .ssid hnone
    · have hread : ∀ (field : Credential) (ctx : AppCtx), ∃ block,
          readCredential byteStore field ctx image = some (.ok, { ctx with text := block }) := by
        intro field ctx
        obtain ⟨text, htext⟩ := Option.ne_none_iff_exists'.mp (hall field)
        exact readCredential_fits ctx h htext (hfits field text htext)
      obtain ⟨ssid, hssid⟩ := hread .ssid { text := bootText hub }
      obtain ⟨password, hpassword⟩ := hread .password { text := ssid }
      obtain ⟨contract, hcontract⟩ := hread .contract { text := password }
      have hstore : byteStore.initializeFlash false mallocOk image = some (.ok, image) := hinit
      refine ⟨_, image, flashInitHandler_restoring hstore (.restored hssid hpassword hcontract),
        rfl, fun env logs sent ↦ ⟨fun _ ↦ ?_, fun hincomplete ↦ ?_⟩⟩
      · exact updateState_boot contract true env logs sent
      · exact absurd ((complete_iff h).mpr hall) hincomplete

/-- The boot cannot read a store that has lost its terminator. -/
theorem not_boots_of_lost (hlost : 0 ∉ image.bytes) (hmem : ∃ b ∈ image.bytes, b ≠ 0xFF) :
    ¬ Boots hub mallocOk image := by
  obtain ⟨b, hb, hne⟩ := hmem
  rintro ⟨ctx, image', hrun, -, -⟩
  have hinit : initializeFlash false mallocOk image = some (.ok, image) :=
    initializeFlash_of_mem hb hne mallocOk
  have hnone : ∀ ctx, readCredential byteStore .ssid ctx image = none := by
    intro ctx
    have hread : byteStore.read Credential.ssid.key image ctx.text.bytes Credential.ssid.offset =
        none := read_unterminated hlost Credential.ssid.key_ok
    simp [readCredential, hread]
  obtain ⟨hstore, hread⟩ := flashInitHandler_ok hrun
  obtain rfl : image = image' :=
    (Prod.mk.inj (Option.some.inj (hinit.symm.trans hstore))).2
  cases hread <;> simp_all

/-- Erased flash is cleared, and then there is no `ssid`. -/
theorem boots_erased_iff : Boots hub mallocOk erasedRegion ↔ mallocOk = true := by
  have hinit := initializeFlash_erased mallocOk
  constructor
  · rintro ⟨ctx, image', hrun, -, -⟩
    cases mallocOk with
    | true => rfl
    | false =>
        obtain ⟨hstore, -⟩ := flashInitHandler_ok hrun
        rw [show byteStore.initializeFlash = initializeFlash from rfl, hinit,
          if_neg Bool.false_ne_true] at hstore
        exact absurd (Prod.mk.inj (Option.some.inj hstore)).1 (by decide)
  · rintro rfl
    have hincomplete : ¬ Complete erasedRegion := by
      rintro ⟨content, hcontent, _⟩
      have := (get_eq_some_iff.mp hcontent).zero_mem
      simp [erasedRegion, List.mem_replicate] at this
    refine boots_of_absent (by simpa using hinit) zeroRegion_holds ?_ hincomplete
    simp [lookup, splitFirst, keySearch_ne_nil]

/-! ## After a power loss -/

/-- The condition, from the store before, the credentials and the point of the power loss: the
flash is erased and there is memory to clear it, or the string of the last write ends inside its
page, and there is no `ssid` or all three credentials are in the store or written, with texts that
fit the arrays. -/
def BootsWhen (content : List UInt8) (text : CtxText) (done : List Credential)
    (erased mallocOk : Bool) : Prop :=
  erased = true ∧ mallocOk = true ∨
    erased = false ∧ ∃ final, storedAll text content done = some final ∧
      (done = [] ∨ final.length % pageSize ≠ 0) ∧
        (¬ Present content done .ssid ∨
          (∀ field : Credential, Present content done field) ∧ Fits final)

/-- A store with an item has an `=`. -/
theorem equals_mem_of_lookup {key : CStr} (h : lookup content key ≠ none) : equals ∈ content := by
  obtain ⟨text, htext⟩ := Option.ne_none_iff_exists'.mp h
  obtain ⟨⟨before, after⟩, hcut, _⟩ := Option.map_eq_some_iff.mp htext
  rw [splitFirst_eq hcut]
  simp [keySearch]

/-- For every store that is a string with at most one key in each item, all credentials and every
point of a power loss. -/
theorem boots_iff {text : CtxText} {prior : Region} {done : List Credential} {erased : Bool}
    (h : Holds prior.bytes content) (hitems : Itemized content)
    (himage : Interrupted text prior done erased image) :
    Boots hub mallocOk image ↔ BootsWhen content text done erased mallocOk := by
  obtain ⟨region, hrun, hlost⟩ := himage.run
  unfold BootsWhen
  cases erased with
  | true =>
      rw [if_pos rfl, flashRangeErase_eq] at hlost
      obtain rfl := Option.some.inj hlost
      simp [boots_erased_iff]
  | false =>
      obtain rfl : region = image := Option.some.inj hlost
      obtain ⟨final, hstored, ⟨hends, hholds⟩ | ⟨⟨hne, hpage⟩, hlost, hstarts⟩⟩ :=
        writeAll_cases h hrun
      · have hpresent := lookup_storedAll hitems hstored
        have hmissing : lookup final Credential.ssid.key = none ↔ ¬ Present content done .ssid := by
          rw [← hpresent .ssid, not_not]
        simp [boots_iff_of_holds hholds, hstored, hends, hmissing, hpresent]
      · obtain ⟨field, hfield⟩ := List.exists_mem_of_ne_nil done hne
        have hfound := (lookup_storedAll hitems hstored field).mpr (.inr hfield)
        have hequals := hstarts.subset (equals_mem_of_lookup hfound)
        refine iff_of_false (not_boots_of_lost hlost ⟨equals, hequals, by decide⟩) ?_
        simp [hstored, hne, hpage]

/-- The arrays of a first provisioning. -/
def homeText : CtxText where
  bytes := lit "home" ++ List.replicate 60 0 ++ (lit "secret" ++ List.replicate 186 0)
  size := by decide +kernel
  ends := by decide +kernel

/-- The first write of the `ssid`. -/
theorem home_write : ∃ region, writeAll homeText zeroRegion [.ssid] = some region ∧
    Holds region.bytes (comma :: newItem Credential.ssid.key (homeText.cstr wifiSsid)) := by
  have hbytes : (homeText.cstr wifiSsid).bytes = lit "home" := by decide +kernel
  obtain ⟨region, hwrite, hholds⟩ := first_write Credential.ssid.key
    (homeText.cstr wifiSsid) Credential.ssid.key_ok (by rw [hbytes]; decide)
    (by rw [itemSize, hbytes]; decide)
  refine ⟨region, ?_, hholds ?_⟩
  · simp only [writeAll, List.foldlM_cons, List.foldlM_nil, bind, pure]
    rw [show Credential.ssid.offset = wifiSsid from rfl, hwrite]
    rfl
  · simp only [storedLength, splitFirst, keySearch_ne_nil, if_false, itemSize, hbytes]
    decide

/-- A power loss while the flash is erased for the second write is repaired. -/
theorem boots_after_erase : Boots defaultHub true erasedRegion := by
  obtain ⟨region, hrun, _⟩ := home_write
  have himage : Interrupted homeText zeroRegion [.ssid] true erasedRegion :=
    ⟨by decide, by decide, region, hrun, by rw [if_pos rfl, flashRangeErase_eq]⟩
  exact (boots_iff zeroRegion_holds rfl himage).mpr (.inl ⟨rfl, rfl⟩)

/-- A power loss right behind the first write of a first provisioning is not. -/
theorem wedged_after_first_write : ¬ ∀ (hub : Hub) (text : CtxText) (prior image : Region)
    (content : List UInt8) (done : List Credential) (erased : Bool),
    Holds prior.bytes content → Itemized content → Interrupted text prior done erased image →
      Boots hub true image := by
  intro hclaim
  obtain ⟨region, hrun, hholds⟩ := home_write
  have himage : Interrupted homeText zeroRegion [.ssid] false region :=
    ⟨by decide, by decide, region, hrun, rfl⟩
  have hboots := hclaim defaultHub homeText zeroRegion region [] [.ssid] false zeroRegion_holds rfl
    himage
  have hbytes : (homeText.cstr wifiSsid).bytes = lit "home" := by decide +kernel
  have hstored : stored [] Credential.ssid.key (homeText.cstr wifiSsid) = some _ :=
    stored_empty (by rw [itemSize, hbytes]; decide)
  have hitems : Itemized [] := rfl
  have hempty : lookup [] Credential.password.key = none := by decide
  have hother : Credential.password ≠ .ssid := by decide
  have hpassword := (lookup_other hitems hother hstored).mpr hempty
  rcases (boots_iff_of_holds hholds).mp hboots with hssid | ⟨hall, _⟩
  · exact lookup_written hstored hssid
  · exact hall .password hpassword

end DirtieNode.Main
