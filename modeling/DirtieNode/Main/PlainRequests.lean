import DirtieNode.Flashmem.Plain
import DirtieNode.Main.Reboot

/-!
# Plain requests

The conditions under which the bytes of the flash do what an atomic store does are about single
writes and boots. Here they are reduced to one about the requests: if the server accepts plain
credentials only, every write of every run is clean, and every boot finds texts that fit.
-/

namespace DirtieNode.Main

open CString Flashmem Logger State Transition Util

variable {hub : Hub} {env : Env} {err : DtErr} {node node' : Node Region} {region region' : Region}
  {field : Credential} {ctx ctx' : AppCtx} {event : Event}
  {trace : List (Taken (Node Region) Event)}

/-- The credentials in the arrays are plain. -/
def PlainArrays (ctx : AppCtx) : Prop :=
  ∀ field : Credential, PlainValue (ctx.text.str field.offset)

/-- A request leaves plain credentials in the arrays. -/
def PlainRequest (taken : Taken (Node Region) Event) : Prop :=
  isPost taken.event = true → PlainArrays taken.after.ram.ctx

instance (ctx : AppCtx) : Decidable (PlainArrays ctx) :=
  decidable_of_iff (∀ field ∈ credentials, PlainValue (ctx.text.str field.offset))
    ⟨fun h field ↦ h field (mem_credentials field), fun h field _ ↦ h field⟩

instance (taken : Taken (Node Region) Event) : Decidable (PlainRequest taken) :=
  inferInstanceAs (Decidable (_ → _))

/-- The arrays and the flash have plain credentials. -/
structure PlainInv (node : Node Region) : Prop where
  arrays : PlainArrays node.ram.ctx
  store : PlainStore node.store

/-- The arrays are empty after boot. -/
theorem plainInv_boot (hub : Hub) (env : Env) (h : PlainStore region) :
    PlainInv (boot hub env region) := by
  refine ⟨fun field ↦ ?_, h⟩
  have hempty : (bootText hub).str field.offset = [] := by
    cases field <;> rfl
  show PlainValue ((bootText hub).str field.offset)
  rw [hempty]
  decide

/-! ## Reads -/

/-- A read of a text that is shorter than its array changes the string of this array alone, if the
strings of the others end in theirs. -/
theorem readCredential_str {content text : List UInt8} (h : Holds region.bytes content)
    (hlookup : lookup content field.key = some text) (hlength : text.length < 64)
    (harrays : ∀ other : Credential, (ctx.text.str other.offset).length < 64) :
    ∃ after, readCredential byteStore field ctx region = some (.ok, { ctx with text := after }) ∧
      ∀ other : Credential, after.str other.offset =
        if other = field then unescape text else ctx.text.str other.offset := by
  obtain ⟨⟨before, behind⟩, hcut, rfl⟩ := Option.map_eq_some_iff.mp hlookup
  obtain ⟨after, hread, hframe⟩ := readCredential_frame h hcut hlength ctx
  refine ⟨after, hread, fun other ↦ ?_⟩
  by_cases hother : other = field
  · rw [if_pos hother, hother]
    have hoffset : field.offset + 64 ≤ 192 := by cases field <;> decide
    have hsize := ctx.text.size
    have hroom : field.offset + (itemText behind).length < ctx.text.bytes.length := by
      have hshort : (itemText behind).length < 64 := hlength
      omega
    have hfound := read_found ctx.text.bytes field.offset h field.key_ok hcut
    rw [if_pos hroom] at hfound
    simp only [readCredential, byteStore, hfound, bind, pure, Option.bind_some,
      Option.bind_eq_some_iff, Option.some.injEq, Prod.mk.injEq, true_and] at hread
    obtain ⟨copied, hcopied, hctx⟩ := hread
    obtain rfl : copied = after := congrArg AppCtx.text hctx
    have hbytes : copied.bytes = restored ctx.text.bytes field.offset (itemText behind) :=
      bytes_of_ofBytes hcopied
    have hnul : 0 ∉ itemText behind := fun hmem ↦ h.nul_free (lookup_subset hlookup hmem)
    have hholds := restored_holds ctx.text.bytes field.offset hnul hroom
    rw [← hbytes] at hholds
    exact (copied.str_holds field.offset_lt).unique hholds
  · rw [if_neg hother]
    have hshort := harrays other
    refine CtxText.str_congr other.offset_lt fun i hi ↦ hframe _ ?_
    cases field <;> cases other <;> first | exact absurd rfl hother | skip
    all_goals
      simp only [Credential.offset, wifiSsid, wifiPass, prvToken] at hi hshort ⊢
      omega

/-- A read of the boot keeps the arrays plain. -/
theorem readCredential_plain (h : PlainStore region) (harrays : PlainArrays ctx)
    (hread : readCredential byteStore field ctx region = some (err, ctx')) : PlainArrays ctx' := by
  obtain ⟨items, hitems, hholds⟩ := h
  cases hlookup : lookup (credentialText items) field.key with
  | none =>
      have habsent : byteStore.read field.key region ctx.text.bytes field.offset =
          some (.keynotfound, ctx.text.bytes) :=
        read_absent hholds field.key_ok (lookup_eq_none_iff.mp hlookup)
      have hsame : readCredential byteStore field ctx region = some (.keynotfound, ctx) := by
        simp [readCredential, habsent, ofBytes_bytes]
      rw [hread] at hsame
      obtain ⟨_, rfl⟩ := Prod.mk.inj (Option.some.inj hsame)
      exact harrays
  | some text =>
      obtain ⟨val, hval, rfl⟩ := hitems.lookup hlookup
      obtain ⟨after, hafter, hstr⟩ := readCredential_str hholds hlookup hval.fits
        fun other ↦ (harrays other).length_lt
      rw [hread] at hafter
      obtain ⟨_, rfl⟩ := Prod.mk.inj (Option.some.inj hafter)
      intro other
      show PlainValue (after.str other.offset)
      rw [hstr other, unescape_escChars]
      split
      · exact hval
      · exact harrays other

/-- A boot that ends early keeps the arrays plain too. -/
theorem restoring_plain (h : PlainStore region) (harrays : PlainArrays ctx)
    (hread : Restoring byteStore ctx region err ctx') : PlainArrays ctx' := by
  cases hread with
  | unconfigured hssid =>
      have hfirst := readCredential_plain h harrays hssid
      exact hfirst
  | noSsid hssid => exact readCredential_plain h harrays hssid
  | noPassword hssid hpassword =>
      exact readCredential_plain h (readCredential_plain h harrays hssid) hpassword
  | noContract hssid hpassword hcontract =>
      have hfirst := readCredential_plain h harrays hssid
      exact readCredential_plain h (readCredential_plain h hfirst hpassword) hcontract
  | restored hssid hpassword hcontract =>
      have hfirst := readCredential_plain h harrays hssid
      have hthird := readCredential_plain h (readCredential_plain h hfirst hpassword) hcontract
      exact hthird

/-- `flash_init_handler` keeps the arrays plain and the flash as it is. -/
theorem flashInitHandler_plain {mallocOk : Bool} (h : PlainStore region)
    (harrays : PlainArrays ctx)
    (hrun : flashInitHandler byteStore mallocOk ctx region = some (err, ctx', region')) :
    PlainArrays ctx' ∧ region' = region := by
  obtain ⟨items, hitems, hholds⟩ := h
  obtain ⟨rfl, hread⟩ := flashInit_of_holds hholds hrun
  exact ⟨restoring_plain ⟨items, hitems, hholds⟩ harrays hread, rfl⟩

/-! ## Steps -/

/-- The texts of plain values fit the arrays. -/
theorem fitsArrays_of_plain (h : PlainStore region) : FitsArrays region := by
  obtain ⟨items, hitems, hholds⟩ := h
  refine ⟨credentialText items, get_holds hholds, fun field text hlookup ↦ ?_⟩
  obtain ⟨val, hval, rfl⟩ := hitems.lookup hlookup
  exact hval.fits

/-- From plain arrays and a plain store every step is clean. -/
theorem PlainInv.cleanStep (h : PlainInv node) : CleanStep ⟨node, event, node'⟩ := by
  refine ⟨fun field _ ↦ ?_, fun _ ↦ fitsArrays_of_plain h.store⟩
  have hval : PlainValue (node.ram.ctx.text.cstr field.offset).bytes := h.arrays field
  obtain ⟨hclean, region', hwrite, _⟩ := h.store.write field hval
  have hrun : writeCredential byteStore field node.ram.ctx node.store = some (.ok, region') :=
    hwrite
  exact ⟨hclean, by rw [hrun]; rfl⟩

/-- A write from plain arrays keeps the flash plain. -/
theorem writeCredential_plain (h : PlainStore region) (harrays : PlainArrays ctx)
    (hrun : writeCredential byteStore field ctx region = some (err, region')) :
    PlainStore region' := by
  have hval : PlainValue (ctx.text.cstr field.offset).bytes := harrays field
  obtain ⟨_, other, hwrite, hother⟩ := h.write field hval
  have hsame : write field.key (ctx.text.cstr field.offset) region = some (err, region') := hrun
  rw [hwrite] at hsame
  obtain ⟨_, rfl⟩ := Prod.mk.inj (Option.some.inj hsame)
  exact hother

/-- A step that keeps the arrays and leaves a plain flash. -/
theorem PlainInv.of_same (h : PlainInv node) (htext : node'.ram.ctx.text = node.ram.ctx.text)
    (hstore : PlainStore node'.store) : PlainInv node' := by
  refine ⟨fun field ↦ ?_, hstore⟩
  rw [htext]
  exact h.arrays field

/-- A handler keeps the credentials plain. -/
theorem plainInv_call (h : PlainInv node) (hrun : callHandler byteStore env node = some node') :
    PlainInv node' := by
  cases handlerCall hrun with
  | flashInit _ hflash =>
      obtain ⟨harrays, rfl⟩ := flashInitHandler_plain h.store h.arrays hflash
      exact ⟨harrays, h.store⟩
  | wifiConfig => exact ⟨h.arrays, h.store⟩
  | flashWrite _ hwrite =>
      obtain ⟨hram, _, err, hcredential, _⟩ := writeStep_cases hwrite
      exact h.of_same (by rw [hram]) (writeCredential_plain h.store h.arrays hcredential)
  | ram hhandler => exact h.of_same (ramHandler_text hhandler) h.store

/-- Of the events between the steps of `main`, a request alone brings new credentials. -/
theorem plainInv_async {ram : Ram} (h : PlainInv node)
    (hrun : asyncStep node.ram event = some ram)
    (hplain : PlainRequest ⟨node, event, { node with ram := ram }⟩) :
    PlainInv { node with ram := ram } := by
  cases event with
  | main env => exact absurd hrun (by simp [asyncStep])
  | post json => exact ⟨hplain rfl, h.store⟩
  | tick =>
      obtain rfl := Option.some.inj hrun
      refine h.of_same ?_ h.store
      show (sampleRateUpdate node.ram.ctx).text = node.ram.ctx.text
      unfold sampleRateUpdate
      split <;> rfl
  | dumpRequest | resetRequest | ntp =>
      obtain rfl := Option.some.inj hrun
      exact ⟨h.arrays, h.store⟩

/-- A step keeps the credentials plain if a request does. -/
theorem plainInv_step (h : PlainInv node) (hstep : step byteStore node event = some node')
    (hplain : PlainRequest ⟨node, event, node'⟩) : PlainInv node' := by
  cases step_cases hstep with
  | async _ hrun _ => exact plainInv_async h hrun hplain
  | call _ _ hrun _ _ => exact plainInv_call h hrun
  | writeSsid _ _ hrun | writePassword _ hrun =>
      obtain ⟨hram, _, err, hcredential, _⟩ := writeStep_cases hrun
      exact h.of_same (by rw [hram]) (writeCredential_plain h.store h.arrays hcredential)
  | writeContract _ hrun =>
      obtain ⟨err, hcredential, _, _, hctx⟩ := writeContract_cases hrun
      refine h.of_same ?_ (writeCredential_plain h.store h.arrays hcredential)
      rw [hctx]
      split <;> rfl
  | update _ _ =>
      refine h.of_same ?_ h.store
      exact (updateState_text ..).trans (by rw [logError_ctx])

/-- From a flash with plain credentials, every run in which the requests leave plain credentials
has clean steps only, and leaves plain credentials in flash, so that the same holds after the next
boot. -/
theorem clean_run (h : PlainStore region)
    (hrun : Run (step byteStore) (boot hub env region) trace node)
    (hplain : ∀ taken ∈ trace, PlainRequest taken) :
    (∀ taken ∈ trace, CleanStep taken) ∧ PlainStore node.store := by
  have hreached : ∀ {older : List (Taken (Node Region) Event)} {node : Node Region},
      Run (step byteStore) (boot hub env region) older node →
      (∀ taken ∈ older, PlainRequest taken) → PlainInv node := by
    intro older node holder hrequests
    exact holder.invariant_of_forall PlainInv hrequests (plainInv_boot hub env h)
      fun _ _ _ hbefore hstep hrequest ↦ plainInv_step hbefore hstep hrequest
  refine ⟨fun taken hmem ↦ ?_, (hreached hrun hplain).store⟩
  obtain ⟨newer, older, rfl⟩ := List.append_of_mem hmem
  exact (hreached hrun.split.1 fun earlier hearlier ↦
    hplain earlier (by simp [hearlier])).cleanStep

/-- The node that is provisioned once, with a plain request. -/
theorem clean_run_first : ∃ (trace : List (Taken (Node Region) Event)) (node : Node Region),
    Run (step byteStore) zeroNode trace node ∧ node.ram.ctx.loopState = .mqttInit ∧
      (∀ taken ∈ trace, CleanStep taken) ∧ PlainStore node.store := by
  obtain ⟨trace, node, hrun, htest⟩ := exists_run_of_record (step byteStore) zeroNode
    provisionEvents (fun trace node ↦ node.ram.ctx.loopState == .mqttInit &&
      trace.all fun taken ↦ decide (PlainRequest taken))
    (by decide +kernel)
  simp only [Bool.and_eq_true, beq_iff_eq, List.all_eq_true, decide_eq_true_eq] at htest
  exact ⟨trace, node, hrun, htest.1, clean_run plainStore_empty hrun htest.2⟩

end DirtieNode.Main
