import DirtieNode.Flashmem.Refinement
import DirtieNode.Main.Measurement
import DirtieNode.Main.Provision
import DirtieNode.Main.Strings

/-!
# The node over the flash store

A node over the bytes of the flash store does what a node over the atomic store does, as long as
its writes are clean and the texts that a boot copies fit their arrays. The two nodes have the same
strings in their arrays, and the bytes behind the terminators may differ: `read` copies a text with
its escapes before it removes them.
-/

namespace DirtieNode.Main

open CString Flashmem Logger State Transition Util

variable {σ : Type} {env : Env} {err : DtErr} {node node' : Node Region} {atomic : Node Values}
  {region region' : Region} {values : Values} {content : List UInt8} {field : Credential}
  {ctx ctx' : AppCtx} {text : CtxText} {event : Event}

/-- The same node, but for the store and the bytes behind the strings. -/
structure Simulates (node : Node Region) (atomic : Node Values) : Prop where
  ram : ∃ text, Alike node.ram.ctx.text text ∧ atomic.ram = withText text node.ram
  hosting : atomic.hosting = node.hosting
  pc : atomic.pc = node.pc
  store : ∃ content, credentialKeys.Represents node.store atomic.store content

/-- The credential that the step writes. -/
def written (taken : Taken (Node σ) Event) : Option Credential :=
  match taken.event, taken.before.pc with
  | .main _, .call => if taken.before.ram.ctx.loopState = .flashWrite then some .ssid else none
  | .main _, .writePassword => some .password
  | .main _, .writeContract => some .contract
  | _, _ => none

/-- The write of the credential is clean, and it is acknowledged. -/
def WritesClean (node : Node Region) (field : Credential) : Prop :=
  CleanWrite node.store field.key (node.ram.ctx.text.cstr field.offset) ∧
    (writeCredential byteStore field node.ram.ctx node.store).map Prod.fst = some .ok

/-- The texts of the credentials, with their escapes, are shorter than the arrays. -/
def FitsArrays (region : Region) : Prop :=
  ∃ content, get region.bytes = some content ∧
    ∀ (field : Credential) (text : List UInt8), lookup content field.key = some text →
      text.length < 64

/-- A write is acknowledged and clean, and a boot finds texts that fit. -/
structure CleanStep (taken : Taken (Node Region) Event) : Prop where
  writes : ∀ field ∈ written taken, WritesClean taken.before field
  boots : (called .flashInit taken).isSome = true → FitsArrays taken.before.store

instance (node : Node Region) (field : Credential) : Decidable (WritesClean node field) :=
  inferInstanceAs (Decidable (_ ∧ _))

instance (region : Region) : Decidable (FitsArrays region) :=
  match h : get region.bytes with
  | none => .isFalse (by simp [FitsArrays, h])
  | some content =>
      decidable_of_iff (∀ field ∈ credentials, ∀ text ∈ lookup content field.key, text.length < 64)
        (by
          have hall : ∀ field : Credential, field ∈ credentials := by
            intro field
            cases field <;> decide
          simp [FitsArrays, h, hall])

instance (taken : Taken (Node Region) Event) : Decidable (CleanStep taken) :=
  decidable_of_iff ((∀ field ∈ written taken, WritesClean taken.before field) ∧
      ((called .flashInit taken).isSome = true → FitsArrays taken.before.store))
    ⟨fun h ↦ ⟨h.1, h.2⟩, fun h ↦ ⟨h.writes, h.boots⟩⟩

/-! ## Writes -/

/-- The array of a credential is one of the four. -/
theorem offset_mem_arrays (field : Credential) : field.offset ∈ arrays := by
  cases field <;> simp [arrays, Credential.offset]

/-- An acknowledged clean write is one of the atomic store. -/
theorem writeCredential_simulates (h : credentialKeys.Represents region values content)
    (halike : Alike ctx.text text)
    (hclean : CleanWrite region field.key (ctx.text.cstr field.offset))
    (hrun : writeCredential byteStore field ctx region = some (.ok, region')) :
    ∃ values', writeCredential atomicStore field { ctx with text := text } values =
        some (.ok, values') ∧ ∃ final, credentialKeys.Represents region' values' final := by
  have hstr : text.str field.offset = ctx.text.str field.offset :=
    halike.str (offset_mem_arrays field)
  have hwrite : write (credentialKeys.key field) (ctx.text.cstr field.offset) region =
      some (.ok, region') := hrun
  have hstep := credentialKeys.write_of_ok hwrite
  have happly : credentialKeys.apply values ⟨region, (field, ctx.text.cstr field.offset), region'⟩ =
      values.set field.key (ctx.text.cstr field.offset) := by
    simp only [KeySet.apply, KeySet.acknowledges, hwrite]
    rfl
  refine ⟨values.set field.key (ctx.text.cstr field.offset), ?_, ?_⟩
  · show some (DtErr.ok, values.set field.key (text.cstr field.offset)) = _
    simp only [CtxText.cstr, hstr]
  · rcases KeySet.write_cases h hstep with ⟨_, hafter⟩ | ⟨hunclean, _⟩
    · rwa [happly] at hafter
    · exact absurd hclean hunclean

/-! ## The boot -/

/-- A longer run of terminators behind a copied string reaches no other array. -/
theorem overlaid_congr {dst offset : Nat} {src src' s : List UInt8}
    (hsame : strAt src 0 = strAt src' 0) (hle : src'.length ≤ src.length) (hpos : 0 < src'.length)
    (hapart : offset ≤ dst ∨ dst + src.length ≤ offset) :
    overlaid dst src offset s = overlaid dst src' offset s := by
  unfold overlaid
  by_cases hbehind : dst + src.length ≤ offset
  · have hbehind' : dst + src'.length ≤ offset := by omega
    rw [if_pos hbehind, if_pos hbehind']
  · have hfront : offset ≤ dst := hapart.resolve_right hbehind
    have hbehind' : ¬ dst + src'.length ≤ offset := by omega
    rw [if_neg hbehind, if_neg hbehind']
    by_cases hinside : dst ≤ offset
    · rw [if_pos hinside, if_pos hinside, Nat.sub_eq_zero_of_le hfront, hsame]
    · rw [if_neg hinside, if_neg hinside, hsame]

/-- What `read` leaves is one copy, of the value and terminators. -/
theorem restored_memcpy {out text : List UInt8} {outVal : Nat}
    (h : outVal + text.length < out.length) :
    memcpy out outVal (unescape text ++
      List.replicate (text.length + 1 - (unescape text).length) 0) =
        some (restored out outVal text) := by
  have hle := unescape_length_le text
  have hlength : (unescape text ++ List.replicate (text.length + 1 - (unescape text).length)
      (0 : UInt8)).length = text.length + 1 := by
    rw [List.length_append, List.length_replicate]
    omega
  rw [memcpy_eq_some (by omega), hlength, restored, ← List.append_assoc, Nat.add_assoc]

/-- The array of a credential is 64 bytes apart from the others. -/
theorem arrays_apart (field : Credential) {offset : Nat} (h : offset ∈ arrays) :
    offset ≤ field.offset ∨ field.offset + 64 ≤ offset := by
  simp only [arrays, List.mem_cons, List.not_mem_nil, or_false] at h
  obtain rfl | rfl | rfl | rfl := h <;> cases field <;> decide

/-- Two copies of a value into the array of a credential keep the blocks alike, when the first one
has more terminators behind it. -/
theorem Alike.restored {text text' : CtxText} {value copied : List UInt8} {count : Nat}
    (h : Alike text text') (hnul : 0 ∉ value) (hcount : 0 < count)
    (hinside : value.length + count ≤ 64)
    (hcopy : memcpy text.bytes field.offset (value ++ List.replicate count 0) = some copied) :
    ∃ after after' : CtxText, after.bytes = copied ∧
      memcpy text'.bytes field.offset (value ++ [0]) = some after'.bytes ∧ Alike after after' := by
  have hoffset : field.offset + 64 ≤ 192 := by cases field <;> decide
  have hlong : (value ++ List.replicate count (0 : UInt8)).length = value.length + count := by
    rw [List.length_append, List.length_replicate]
  have hshort : (value ++ [(0 : UInt8)]).length = value.length + 1 := by
    rw [List.length_append, List.length_singleton]
  obtain ⟨copied', hcopy'⟩ : ∃ copied', memcpy text'.bytes field.offset (value ++ [0]) =
      some copied' := by
    refine ⟨_, memcpy_eq_some ?_⟩
    rw [text'.size, hshort]
    omega
  have hends : copied[255]? = some 0 := by
    rw [memcpy_getElem? hcopy, if_neg (by omega)]
    exact text.ends
  have hends' : copied'[255]? = some 0 := by
    rw [memcpy_getElem? hcopy', if_neg (by omega)]
    exact text'.ends
  let after : CtxText := ⟨copied, (memcpy_length hcopy).trans text.size, hends⟩
  let after' : CtxText := ⟨copied', (memcpy_length hcopy').trans text'.size, hends'⟩
  refine ⟨after, after', rfl, hcopy', after'.size.trans after.size.symm, fun offset harray ↦ ?_⟩
  have hterminated : (value ++ List.replicate count (0 : UInt8)).getLast? = some 0 := by
    rw [List.getLast?_append, List.getLast?_replicate, if_neg hcount.ne']
    rfl
  have hsame : strAt (value ++ List.replicate count 0) 0 = strAt (value ++ [0]) 0 := by
    rw [strAt_holds (holds_append hnul), strAt_holds (holds_replicate _ hnul hcount)]
  show strAt copied offset = strAt copied' offset
  rw [strAt_memcpy hcopy hterminated, strAt_memcpy hcopy' List.getLast?_concat, h.2 offset harray]
  refine overlaid_congr hsame (by omega) (by omega) ?_
  exact (arrays_apart field harray).imp_right fun hapart ↦ by omega

/-- A read of the boot has the result of the read of the atomic store, and leaves blocks that are
alike. -/
theorem readCredential_simulates (h : credentialKeys.Represents region values content)
    (hfits : ∀ text, lookup content field.key = some text → text.length < 64)
    (halike : Alike ctx.text text) :
    ∃ err after after', readCredential byteStore field ctx region =
        some (err, { ctx with text := after }) ∧
      readCredential atomicStore field { ctx with text := text } values =
        some (err, { ctx with text := after' }) ∧ Alike after after' := by
  have hvalue : (lookup content field.key).map unescape = values field.key.bytes := h.lookup field
  cases hcut : splitFirst (keySearch field.key) content with
  | none =>
      have hread : byteStore.read field.key region ctx.text.bytes field.offset =
          some (.keynotfound, ctx.text.bytes) := read_absent h.holds field.key_ok hcut
      rw [lookup_eq_none_iff.mpr hcut, Option.map_none] at hvalue
      have hatomic : atomicStore.read field.key values text.bytes field.offset =
          some (.keynotfound, text.bytes) := by
        simp [atomicStore, ← hvalue]
      refine ⟨.keynotfound, ctx.text, text, ?_, ?_, halike⟩
      · simp [readCredential, hread, ofBytes_bytes]
      · simp [readCredential, hatomic, ofBytes_bytes]
  | some cut =>
      obtain ⟨before, after⟩ := cut
      have hlookup := lookup_eq_some hcut
      have hlength := hfits _ hlookup
      have hle := unescape_length_le (itemText after)
      have hoffset : field.offset + 64 ≤ 192 := by cases field <;> decide
      have hroom : field.offset + (itemText after).length < ctx.text.bytes.length := by
        rw [ctx.text.size]
        omega
      have hnul : 0 ∉ unescape (itemText after) :=
        unescape_nul_free fun hmem ↦ h.holds.nul_free (lookup_subset hlookup hmem)
      -- both reads are copies of the value, the one with more terminators behind it
      obtain ⟨first, second, hfirst, hcopy, hafter⟩ :=
        halike.restored hnul (by omega) (by omega) (restored_memcpy hroom)
      have hread : byteStore.read field.key region ctx.text.bytes field.offset =
          some (.ok, first.bytes) := by
        have hfound := read_found ctx.text.bytes field.offset h.holds field.key_ok hcut
        rwa [if_pos hroom, ← hfirst] at hfound
      rw [hlookup, Option.map_some] at hvalue
      have hatomic : atomicStore.read field.key values text.bytes field.offset =
          some (.ok, second.bytes) := by
        simp only [atomicStore, ← hvalue, hcopy, Option.map_some]
      refine ⟨.ok, first, second, ?_, ?_, hafter⟩
      · simp [readCredential, hread, ofBytes_bytes]
      · simp [readCredential, hatomic, ofBytes_bytes]

/-- A boot from a region with a string leaves the region alone, and reads. -/
theorem flashInit_of_holds {mallocOk : Bool} (h : Holds region.bytes content)
    (hrun : flashInitHandler byteStore mallocOk ctx region = some (err, ctx', region')) :
    region' = region ∧ Restoring byteStore ctx region err ctx' := by
  have hinit : byteStore.initializeFlash false mallocOk region = some (.ok, region) :=
    initializeFlash_of_holds h mallocOk
  rcases flashInitHandler_cases hrun with ⟨hfailed, herr, _⟩ | ⟨hok, hread⟩
  · rw [hinit] at hfailed
    exact absurd (Prod.mk.inj (Option.some.inj hfailed)).1.symm herr
  · rw [hinit] at hok
    obtain rfl := (Prod.mk.inj (Option.some.inj hok)).2
    exact ⟨rfl, hread⟩

/-- A boot from texts that fit is a boot from the atomic store. -/
theorem flashInitHandler_simulates {mallocOk : Bool}
    (h : credentialKeys.Represents region values content)
    (hfits : ∀ (field : Credential) (text : List UInt8), lookup content field.key = some text →
      text.length < 64)
    (halike : Alike ctx.text text)
    (hrun : flashInitHandler byteStore mallocOk ctx region = some (err, ctx', region')) :
    region' = region ∧ ∃ text', flashInitHandler atomicStore mallocOk { ctx with text := text }
        values = some (err, { ctx' with text := text' }, values) ∧ Alike ctx'.text text' := by
  have hatomic : atomicStore.initializeFlash false mallocOk values = some (.ok, values) := rfl
  obtain ⟨rfl, hread⟩ := flashInit_of_holds h.holds hrun
  refine ⟨rfl, ?_⟩
  obtain ⟨_, first, first', hfirst, hfirst', halike⟩ :=
    readCredential_simulates h (hfits .ssid) halike
  have hone : Alike ({ ctx with text := first } : AppCtx).text first' := halike
  obtain ⟨_, second, second', hsecond, hsecond', halike⟩ :=
    readCredential_simulates h (hfits .password) hone
  have htwo : Alike ({ ctx with text := second } : AppCtx).text second' := halike
  obtain ⟨_, third, third', hthird, hthird', halike⟩ :=
    readCredential_simulates h (hfits .contract) htwo
  cases hread with
  | unconfigured hssid =>
      obtain ⟨rfl, rfl⟩ := Prod.mk.inj (Option.some.inj (hfirst.symm.trans hssid))
      exact ⟨first', flashInitHandler_restoring hatomic (.unconfigured hfirst'), hone⟩
  | noSsid hssid herr hfound =>
      obtain ⟨rfl, rfl⟩ := Prod.mk.inj (Option.some.inj (hfirst.symm.trans hssid))
      exact ⟨first', flashInitHandler_restoring hatomic (.noSsid hfirst' herr hfound), hone⟩
  | noPassword hssid hpassword herr =>
      obtain ⟨rfl, rfl⟩ := Prod.mk.inj (Option.some.inj (hfirst.symm.trans hssid))
      obtain ⟨rfl, rfl⟩ := Prod.mk.inj (Option.some.inj (hsecond.symm.trans hpassword))
      exact ⟨second', flashInitHandler_restoring hatomic (.noPassword hfirst' hsecond' herr),
        htwo⟩
  | noContract hssid hpassword hcontract herr =>
      obtain ⟨rfl, rfl⟩ := Prod.mk.inj (Option.some.inj (hfirst.symm.trans hssid))
      obtain ⟨rfl, rfl⟩ := Prod.mk.inj (Option.some.inj (hsecond.symm.trans hpassword))
      obtain ⟨rfl, rfl⟩ := Prod.mk.inj (Option.some.inj (hthird.symm.trans hcontract))
      exact ⟨third', flashInitHandler_restoring hatomic
        (.noContract hfirst' hsecond' hthird' herr), halike⟩
  | restored hssid hpassword hcontract =>
      obtain ⟨rfl, rfl⟩ := Prod.mk.inj (Option.some.inj (hfirst.symm.trans hssid))
      obtain ⟨rfl, rfl⟩ := Prod.mk.inj (Option.some.inj (hsecond.symm.trans hpassword))
      obtain ⟨rfl, rfl⟩ := Prod.mk.inj (Option.some.inj (hthird.symm.trans hcontract))
      exact ⟨third', flashInitHandler_restoring hatomic (.restored hfirst' hsecond' hthird'),
        halike⟩

/-! ## Steps -/

/-- The node over the atomic store with these arrays and values. -/
def overValues (node : Node Region) (text : CtxText) (values : Values) : Node Values :=
  ⟨withText text node.ram, values, node.hosting, node.pc⟩

/-- The node over the values agrees with the one over the bytes. -/
theorem simulates_overValues (node : Node Region) (values : Values)
    (halike : Alike node.ram.ctx.text text)
    (h : credentialKeys.Represents node.store values content) :
    Simulates node (overValues node text values) :=
  ⟨⟨text, halike, rfl⟩, rfl, rfl, content, h⟩

/-- A clean write of `flash_write_handler` is one of the atomic store. -/
theorem writeStep_simulates {next : Pc} (halike : Alike node.ram.ctx.text text)
    (h : credentialKeys.Represents node.store values content)
    (hclean : WritesClean node field)
    (hrun : writeStep byteStore field next node = some node') :
    ∃ atomic', writeStep atomicStore field next (overValues node text values) = some atomic' ∧
      Simulates node' atomic' := by
  obtain ⟨⟨_, store⟩, hwrite, rfl⟩ := Option.map_eq_some_iff.mp hclean.2
  obtain ⟨values', hwrite', final, hafter⟩ := writeCredential_simulates h halike hclean.1 hwrite
  rw [writeStep, hwrite] at hrun
  obtain rfl := Option.some.inj hrun
  refine ⟨_, ?_, simulates_overValues _ values' halike hafter⟩
  have hatomic : writeCredential atomicStore field (overValues node text values).ram.ctx
      (overValues node text values).store = some (.ok, values') := hwrite'
  rw [writeStep, hatomic]
  rfl

/-- The last write of `flash_write_handler` is one of the atomic store. -/
theorem writeContract_simulates (halike : Alike node.ram.ctx.text text)
    (h : credentialKeys.Represents node.store values content)
    (hclean : WritesClean node .contract)
    (hrun : writeContract byteStore node = some node') :
    ∃ atomic', writeContract atomicStore (overValues node text values) = some atomic' ∧
      Simulates node' atomic' := by
  obtain ⟨⟨_, store⟩, hwrite, rfl⟩ := Option.map_eq_some_iff.mp hclean.2
  obtain ⟨values', hwrite', final, hafter⟩ := writeCredential_simulates h halike hclean.1 hwrite
  rw [writeContract, hwrite] at hrun
  obtain rfl := Option.some.inj hrun
  refine ⟨_, ?_, simulates_overValues _ values' halike hafter⟩
  have hatomic : writeCredential atomicStore .contract (overValues node text values).ram.ctx
      (overValues node text values).store = some (.ok, values') := hwrite'
  rw [writeContract, hatomic]
  rfl

/-- The call of a handler under the condition is one over the atomic store. -/
theorem callHandler_simulates (halike : Alike node.ram.ctx.text text)
    (h : credentialKeys.Represents node.store values content) (hpc : node.pc = .call)
    (hclean : CleanStep ⟨node, .main env, node'⟩)
    (hrun : callHandler byteStore env node = some node') :
    ∃ atomic', callHandler atomicStore env (overValues node text values) = some atomic' ∧
      Simulates node' atomic' := by
  cases handlerCall hrun with
  | @flashInit err ctx store hinit hflash =>
      have hcalled : called .flashInit ⟨node, .main env, { node with
          ram := { node.ram with ctx := ctx }, store := store, pc := .update err }⟩ = some env :=
        called_eq_some.mpr ⟨rfl, hpc, hinit⟩
      obtain ⟨found, hfound, hfits⟩ := hclean.boots (by rw [hcalled]; rfl)
      obtain rfl := (get_eq_some_iff.mp hfound).unique h.holds
      obtain ⟨rfl, text', hflash', halike'⟩ := flashInitHandler_simulates h hfits halike hflash
      have hatomic : flashInitHandler atomicStore env.zeroBuf (overValues node text values).ram.ctx
          (overValues node text values).store =
            some (err, { ctx with text := text' }, values) := hflash'
      refine ⟨_, ?_, simulates_overValues { node with
        ram := { node.ram with ctx := ctx }, pc := .update err } values halike' h⟩
      rw [callHandler, show (overValues node text values).ram.ctx.loopState = .flashInit from hinit]
      simp only [hatomic]
      rfl
  | wifiConfig err hosting hconfig =>
      rw [callHandler, hconfig] at hrun
      have hplace : (overValues node text values).ram.ctx.loopState = .wifiConfig := hconfig
      rw [callHandler, hplace]
      exact ⟨_, congrArg (Option.map fun after ↦ overValues after text values) hrun,
        simulates_overValues _ values halike h⟩
  | flashWrite hwrite hrun =>
      have hfield : .ssid ∈ written ⟨node, .main env, node'⟩ := by
        simp only [written, hpc]
        exact if_pos hwrite
      have hplace : (overValues node text values).ram.ctx.loopState = .flashWrite := hwrite
      rw [callHandler, hplace]
      exact writeStep_simulates halike h (hclean.writes .ssid hfield) hrun
  | @ram err ram hhandler =>
      have hatomic : ramHandler env (overValues node text values).ram node.ram.ctx.loopState =
          some (err, withText text ram) := by
        rw [show (overValues node text values).ram = withText text node.ram from rfl,
          ramHandler_withText halike, hhandler]
        rfl
      have halike' : Alike ram.ctx.text text := by
        rw [ramHandler_text hhandler]
        exact halike
      refine ⟨_, ?_, simulates_overValues { node with ram := ram, pc := .update err }
        values halike' h⟩
      rw [callHandler, show (overValues node text values).ram.ctx.loopState =
        node.ram.ctx.loopState from rfl]
      cases hplace : node.ram.ctx.loopState <;> rw [hplace] at hatomic hhandler
      case flashInit | wifiConfig | flashWrite => exact absurd hhandler (by simp [ramHandler])
      all_goals
        dsimp only
        rw [hatomic]
        rfl

/-- `update_state` does the same over both stores. -/
theorem updateStep_overValues : updateStep env err (overValues node text values) =
    overValues (updateStep env err node) text values := by
  have hram : updateState env (logError env err (withText text node.ram)) =
      withText text (updateState env (logError env err node.ram)) := by
    rw [logError_withText, updateState_withText]
  show ({ overValues node text values with
    ram := updateState env (logError env err (withText text node.ram)), pc := .call } :
      Node Values) = _
  rw [hram]
  rfl

/-- A step of the main program under the condition is one over the atomic store. -/
theorem mainStep_simulates (halike : Alike node.ram.ctx.text text)
    (h : credentialKeys.Represents node.store values content)
    (hclean : CleanStep ⟨node, .main env, node'⟩)
    (hrun : mainStep byteStore env node = some node') :
    ∃ atomic', mainStep atomicStore env (overValues node text values) = some atomic' ∧
      Simulates node' atomic' := by
  have hplace : (overValues node text values).pc = node.pc := rfl
  unfold mainStep at hrun ⊢
  rw [hplace]
  cases hpc : node.pc with
  | call =>
      rw [hpc] at hrun
      exact callHandler_simulates halike h hpc hclean hrun
  | writePassword =>
      rw [hpc] at hrun
      have hfield : .password ∈ written ⟨node, .main env, node'⟩ := by
        simp only [written, hpc]
        rfl
      exact writeStep_simulates halike h (hclean.writes .password hfield) hrun
  | writeContract =>
      rw [hpc] at hrun
      have hfield : .contract ∈ written ⟨node, .main env, node'⟩ := by
        simp only [written, hpc]
        rfl
      exact writeContract_simulates halike h (hclean.writes .contract hfield) hrun
  | update err =>
      rw [hpc] at hrun
      obtain rfl := Option.some.inj hrun
      refine ⟨_, congrArg some updateStep_overValues, simulates_overValues _ values ?_ h⟩
      show Alike (updateState env (logError env err node.ram)).ctx.text text
      rwa [updateState_text, logError_ctx]

/-- Each step under the condition is a step of the node over the atomic store. -/
theorem simulates_step (h : Simulates node atomic) (hstep : step byteStore node event = some node')
    (hclean : CleanStep ⟨node, event, node'⟩) :
    ∃ atomic', step atomicStore atomic event = some atomic' ∧ Simulates node' atomic' := by
  obtain ⟨⟨text, halike, hram⟩, hhosting, hpc, ⟨content, hstore⟩⟩ := h
  obtain ⟨aram, values, ahosting, apc⟩ := atomic
  obtain rfl : aram = withText text node.ram := hram
  obtain rfl : ahosting = node.hosting := hhosting
  obtain rfl : apc = node.pc := hpc
  have hbetween : (asyncStep node.ram event).map (fun ram ↦ { node with ram := ram }) = some node' →
      ∃ atomic', (asyncStep (withText text node.ram) event).map (fun ram ↦
        (⟨ram, values, node.hosting, node.pc⟩ : Node Values)) = some atomic' ∧
          Simulates node' atomic' := by
    intro hrun
    obtain ⟨ram, hasync, rfl⟩ := Option.map_eq_some_iff.mp hrun
    obtain ⟨text', hasync', halike'⟩ := asyncStep_withText hasync halike
    exact ⟨_, congrArg (Option.map _) hasync', ⟨text', halike', rfl⟩, rfl, rfl, content, hstore⟩
  cases event with
  | main env => exact mainStep_simulates halike hstore hclean hstep
  | post json => exact hbetween hstep
  | tick => exact hbetween hstep
  | dumpRequest => exact hbetween hstep
  | resetRequest => exact hbetween hstep
  | ntp e => exact hbetween hstep

/-! ## Runs -/

/-- The same event, between states of which the one simulates the other. -/
def SameStep (taken : Taken (Node Region) Event) (abstract : Taken (Node Values) Event) : Prop :=
  abstract.event = taken.event ∧ Simulates taken.before abstract.before ∧
    Simulates taken.after abstract.after

/-- From nodes that agree, every run over the bytes of the flash under the condition is a run over
the atomic store, with the same events, and with the same memory, publications and logs after each
of them, up to the bytes behind the strings of the arrays. -/
theorem simulates_run {trace : List (Taken (Node Region) Event)} (h : Simulates node atomic)
    (hrun : Run (step byteStore) node trace node') (hclean : ∀ taken ∈ trace, CleanStep taken) :
    ∃ (abstract : List (Taken (Node Values) Event)) (atomic' : Node Values),
      Run (step atomicStore) atomic abstract atomic' ∧ Simulates node' atomic' ∧
        List.Forall₂ SameStep trace abstract :=
  hrun.simulates Simulates hclean h fun _ _ _ _ hrelated hstep hcond ↦
    simulates_step hrelated hstep hcond

/-- Nodes that boot from stores with the same values agree. -/
theorem simulates_boot (hub : Hub) (env : Env)
    (h : credentialKeys.Represents region values content) :
    Simulates (boot hub env region) (boot hub env values) :=
  ⟨⟨bootText hub, Alike.refl _, rfl⟩, rfl, rfl, content, h⟩

/-- A node whose flash is empty. -/
def zeroNode : Node Region := boot defaultHub quietEnv zeroRegion

/-- The node that is provisioned once, over its bytes and over the atomic store. -/
theorem simulates_run_first : ∃ (trace : List (Taken (Node Region) Event)) (node : Node Region)
    (abstract : List (Taken (Node Values) Event)) (atomic : Node Values),
      Run (step byteStore) zeroNode trace node ∧ node.ram.ctx.loopState = .mqttInit ∧
        Run (step atomicStore) freshNode abstract atomic ∧ Simulates node atomic ∧
          List.Forall₂ SameStep trace abstract := by
  obtain ⟨trace, node, hrun, htest⟩ := exists_run_of_record (step byteStore) zeroNode
    provisionEvents (fun trace node ↦ node.ram.ctx.loopState == .mqttInit &&
      trace.all fun taken ↦ decide (CleanStep taken))
    (by decide +kernel)
  simp only [Bool.and_eq_true, beq_iff_eq, List.all_eq_true, decide_eq_true_eq] at htest
  obtain ⟨abstract, atomic, hatomic, hnode, hsteps⟩ := simulates_run
    (simulates_boot defaultHub quietEnv credentialKeys.represents_empty) hrun htest.2
  exact ⟨trace, node, abstract, atomic, hrun, htest.1, hatomic, hnode, hsteps⟩

end DirtieNode.Main
