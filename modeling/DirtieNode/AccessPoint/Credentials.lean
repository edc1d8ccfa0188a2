import DirtieNode.AccessPoint.Host

/-!
# The credentials of a request

What `parse_wifi_credentials` takes out of a body and where it puts it. A value may have 64 bytes,
and then its terminator is the first byte of the next array: of the password, of the token, or of
the location of the hub.
-/

namespace DirtieNode.AccessPoint

open CString State

/-- The bytes behind the first occurrence of a query, up to the next double quote. -/
def quoted (query json : List UInt8) : Option (List UInt8) :=
  (splitFirst query json).bind fun cut ↦
    if quote ∈ cut.2 then some (cut.2.takeWhile (· != quote)) else none

/-- The arrays with three strings in them. -/
def acceptText (text : CtxText) (ssid pass token : List UInt8) : Option CtxText := do
  let bytes ← memcpy text.bytes wifiSsid (ssid ++ [0])
  let bytes ← memcpy bytes wifiPass (pass ++ [0])
  let bytes ← memcpy bytes prvToken (token ++ [0])
  CtxText.ofBytes bytes

/-- The string in one of the 64-byte arrays, if it ends there. -/
def array (ctx : AppCtx) (offset : Nat) : Option (List UInt8) :=
  get ((ctx.text.bytes.drop offset).take 64)

/-! ## Searches in a body -/

section Search

variable {mem json query before after : List UInt8}

/-- The value behind a query ends at the next quote. -/
theorem quoted_of_cut (h : splitFirst query json = some (before, after)) :
    quoted query json = if quote ∈ after then some (after.takeWhile (· != quote)) else none := by
  rw [quoted, h]
  rfl

/-- The end of a value that the parser finds. -/
theorem strchr_quote (hmem : Holds mem json) (h : splitFirst query json = some (before, after)) :
    strchr (mem.drop (before.length + query.length)) quote =
      some ((quoted query json).map List.length) := by
  have heq := splitFirst_eq h
  have hdrop : Holds (mem.drop (before ++ query).length) after := Holds.drop (heq ▸ hmem)
  rw [List.length_append] at hdrop
  rw [strchr_holds hdrop (by decide), quoted_of_cut h]
  split <;> rfl

/-- The copy of a value and its terminator. -/
theorem copyField_eq {value bytes : List UInt8} (hmem : Holds mem json)
    (h : splitFirst query json = some (before, after)) (hvalue : quoted query json = some value)
    (offset : Nat) :
    copyField bytes offset mem (before.length + query.length) value.length =
      memcpy bytes offset (value ++ [0]) := by
  have hstart : value <+: after := by
    rw [quoted_of_cut h] at hvalue
    split at hvalue
    · obtain rfl := Option.some.inj hvalue
      exact List.takeWhile_prefix _
    · simp at hvalue
  have hdrop : Holds (mem.drop (before.length + query.length)) after := by
    rw [← List.length_append]
    exact Holds.drop (splitFirst_eq h ▸ hmem)
  obtain ⟨rest, hrest, _⟩ := hdrop
  obtain ⟨tail, rfl⟩ := hstart
  have hload : load mem (before.length + query.length) value.length = some value := by
    have hlen := congrArg List.length hrest
    simp only [List.length_drop, List.length_append, List.length_cons] at hlen
    rw [load_eq_some (by omega), hrest, List.append_assoc, List.take_left]
  rw [← memcpy_memcpy, copyField, hload]
  rfl

end Search

/-- `parse_wifi_credentials` in terms of the three strings it looks for. -/
theorem parseWifiCredentials_holds {mem json : List UInt8} (hmem : Holds mem json) (ctx : AppCtx) :
    parseWifiCredentials mem ctx =
      match quoted ssidQuery json, quoted pwQuery json, quoted tknQuery json with
      | some ssid, some pass, some token =>
          if ssid.length > 64 ∨ pass.length > 64 ∨ token.length > 64 then some (false, ctx)
          else (acceptText ctx.text ssid pass token).map fun text ↦
            (true, { ctx with text := text, wifiConfigd := true })
      | _, _, _ => some (false, ctx) := by
  have hfind : ∀ query : List UInt8, query ≠ [] → 0 ∉ query →
      strstr mem query = some ((splitFirst query json).map fun cut ↦ cut.1.length) :=
    fun _ hne hnul ↦ strstr_holds hmem hne hnul
  have hmissing : ∀ {query : List UInt8}, splitFirst query json = none →
      quoted query json = none := fun h ↦ by rw [quoted, h]; rfl
  unfold parseWifiCredentials
  simp only [hfind ssidQuery (by decide) (by decide), hfind pwQuery (by decide) (by decide),
    hfind tknQuery (by decide) (by decide), bind, pure, Option.bind_some]
  cases hssid : splitFirst ssidQuery json with
  | none => simp [hmissing hssid]
  | some ssidCut =>
      cases hpw : splitFirst pwQuery json with
      | none => cases quoted ssidQuery json <;> simp [hmissing hpw]
      | some pwCut =>
          cases htkn : splitFirst tknQuery json with
          | none =>
              cases quoted ssidQuery json <;> cases quoted pwQuery json <;>
                simp [hmissing htkn]
          | some tknCut =>
              simp only [Option.map_some, strchr_quote hmem hssid, strchr_quote hmem hpw,
                strchr_quote hmem htkn, Option.bind_some]
              cases hssidValue : quoted ssidQuery json with
              | none => rfl
              | some ssid =>
                  cases hpwValue : quoted pwQuery json with
                  | none => rfl
                  | some pass =>
                      cases htknValue : quoted tknQuery json with
                      | none => rfl
                      | some token =>
                          simp only [Option.map_some, copyField_eq hmem hssid hssidValue,
                            copyField_eq hmem hpw hpwValue, copyField_eq hmem htkn htknValue]
                          split
                          · rfl
                          · simp only [acceptText, bind, Option.map_eq_bind, Option.bind_assoc]
                            rfl

/-! ## The arrays -/

section Arrays

variable {mem src mem' value : List UInt8} {dst : Nat}

/-- An array in front of a copy keeps its bytes. -/
theorem memcpy_array_before (h : memcpy mem dst src = some mem') {offset : Nat}
    (hoffset : offset + 64 ≤ dst) : (mem'.drop offset).take 64 = (mem.drop offset).take 64 := by
  rw [List.take_drop, List.take_drop, memcpy_take h (by omega)]

/-- A shorter value than an array ends in it. -/
theorem get_array (h : memcpy mem dst (value ++ [0]) = some mem') (hvalue : 0 ∉ value)
    (hlen : value.length < 64) : get ((mem'.drop dst).take 64) = some value := by
  have hload := memcpy_load h
  have hsplit : mem'.drop dst = value ++ 0 :: (mem'.drop dst).drop (value.length + 1) := by
    conv_lhs => rw [← List.take_append_drop (value.length + 1) (mem'.drop dst)]
    rw [List.length_append, List.length_singleton] at hload
    rw [hload, List.append_assoc, List.singleton_append]
  rw [hsplit, List.take_append, List.take_of_length_le (Nat.le_of_lt hlen),
    show 64 - value.length = 64 - value.length - 1 + 1 by omega, List.take_succ_cons]
  exact get_holds (holds_append hvalue)

/-- A value of 64 bytes fills its array. -/
theorem get_full_array (h : memcpy mem dst (value ++ [0]) = some mem') (hvalue : 0 ∉ value)
    (hlen : value.length = 64) : get ((mem'.drop dst).take 64) = none := by
  have hload := memcpy_load h
  have hfull : (mem'.drop dst).take 64 = value := by
    rw [← hlen]
    have := congrArg (List.take value.length) hload
    rwa [List.take_take, List.take_left, List.length_append, Nat.min_eq_left (by omega)] at this
  rw [hfull, get_eq_none_iff]
  exact hvalue

/-- A value is read from its array when its terminator is inside. -/
theorem get_array_iff (h : memcpy mem dst (value ++ [0]) = some mem') (hvalue : 0 ∉ value)
    (hlen : value.length ≤ 64) :
    get ((mem'.drop dst).take 64) = some value ↔ value.length < 64 := by
  refine ⟨fun hget ↦ ?_, get_array h hvalue⟩
  by_contra hfull
  rw [get_full_array h hvalue (by omega)] at hget
  simp at hget

end Arrays

/-- The three copies, one after the other, for values that the parser accepts. -/
theorem acceptText_eq (text : CtxText) {ssid pass token : List UInt8} (hssid : ssid.length ≤ 64)
    (hpass : pass.length ≤ 64) (htoken : token.length ≤ 64) :
    ∃ first second, ∃ text' : CtxText, acceptText text ssid pass token = some text' ∧
      memcpy text.bytes wifiSsid (ssid ++ [0]) = some first ∧
      memcpy first wifiPass (pass ++ [0]) = some second ∧
      memcpy second prvToken (token ++ [0]) = some text'.bytes := by
  have hroom : ∀ (offset : Nat) {mem value : List UInt8}, mem.length = 256 → value.length ≤ 64 →
      offset ≤ 128 → ∃ mem', memcpy mem offset (value ++ [0]) = some mem' := by
    intro offset mem value hmem hvalue hoffset
    refine ⟨_, memcpy_eq_some ?_⟩
    rw [List.length_append, List.length_singleton]
    omega
  obtain ⟨first, hfirst⟩ := hroom wifiSsid text.size hssid (by decide)
  have hlen1 : first.length = 256 := (memcpy_length hfirst).trans text.size
  obtain ⟨second, hsecond⟩ := hroom wifiPass hlen1 hpass (by decide)
  have hlen2 : second.length = 256 := (memcpy_length hsecond).trans hlen1
  obtain ⟨third, hthird⟩ := hroom prvToken hlen2 htoken (by decide)
  have hlen3 : third.length = 256 := (memcpy_length hthird).trans hlen2
  have hends : third[255]? = some 0 := by
    have hbound : ∀ {value : List UInt8} {offset : Nat}, value.length ≤ 64 → offset ≤ 128 →
        ¬ (offset ≤ 255 ∧ 255 < offset + (value ++ [(0 : UInt8)]).length) := by
      intro value offset hvalue hoffset
      rw [List.length_append, List.length_singleton]
      omega
    rw [memcpy_getElem? hthird, if_neg (hbound htoken (by decide)), memcpy_getElem? hsecond,
      if_neg (hbound hpass (by decide)), memcpy_getElem? hfirst, if_neg (hbound hssid (by decide)),
      text.ends]
  have hblock : CtxText.ofBytes third = some ⟨third, hlen3, hends⟩ := dif_pos ⟨hlen3, hends⟩
  refine ⟨first, second, ⟨third, hlen3, hends⟩, ?_, hfirst, hsecond, hthird⟩
  simp [acceptText, hfirst, hsecond, hthird, hblock]

/-! ## All or nothing -/

/-- The three arrays hold the quoted strings, and nothing else has changed but the flag. -/
structure Provisions (json : CStr) (ctx ctx' : AppCtx) : Prop where
  ssid : ∃ value, quoted ssidQuery json.bytes = some value ∧ array ctx' wifiSsid = some value
  pass : ∃ value, quoted pwQuery json.bytes = some value ∧ array ctx' wifiPass = some value
  token : ∃ value, quoted tknQuery json.bytes = some value ∧ array ctx' prvToken = some value
  hub : ctx'.text.bytes.drop hubLoc = ctx.text.bytes.drop hubLoc
  frame : ctx' = { ctx with text := ctx'.text, wifiConfigd := true }

/-- An accepted body provisions the context, and a refused one leaves it alone. -/
def AllOrNothing (json : CStr) (ctx : AppCtx) : Prop :=
  ∃ accepted ctx', parseWifiCredentials (json.bytes ++ [0]) ctx = some (accepted, ctx') ∧
    if accepted then Provisions json ctx ctx' else ctx' = ctx

/-- If the three quoted strings are there and have at most 64 bytes, they have fewer. -/
def LeavesTerminators (json : CStr) : Prop :=
  ∀ ssid pass token, quoted ssidQuery json.bytes = some ssid →
    quoted pwQuery json.bytes = some pass → quoted tknQuery json.bytes = some token →
    ssid.length ≤ 64 → pass.length ≤ 64 → token.length ≤ 64 →
      ssid.length < 64 ∧ pass.length < 64 ∧ token.length < 64

/-- A value of a C string has no terminator. -/
theorem quoted_nul_free {json : CStr} {query value : List UInt8}
    (h : quoted query json.bytes = some value) : 0 ∉ value := by
  obtain ⟨⟨before, after⟩, hcut, hvalue⟩ := Option.bind_eq_some_iff.mp h
  dsimp only at hvalue
  split at hvalue
  · obtain rfl := Option.some.inj hvalue
    intro hmem
    refine json.nul_free ?_
    rw [splitFirst_eq hcut]
    exact List.mem_append_right _ ((List.takeWhile_prefix _).subset hmem)
  · simp at hvalue

/-- A body is refused unless the three strings are there and short enough. -/
theorem refused_or_strings (json : CStr) (ctx : AppCtx) :
    parseWifiCredentials (json.bytes ++ [0]) ctx = some (false, ctx) ∧
        (∀ ssid pass token, quoted ssidQuery json.bytes = some ssid →
          quoted pwQuery json.bytes = some pass → quoted tknQuery json.bytes = some token →
          ¬ (ssid.length ≤ 64 ∧ pass.length ≤ 64 ∧ token.length ≤ 64)) ∨
      ∃ ssid pass token, quoted ssidQuery json.bytes = some ssid ∧
        quoted pwQuery json.bytes = some pass ∧ quoted tknQuery json.bytes = some token ∧
        ssid.length ≤ 64 ∧ pass.length ≤ 64 ∧ token.length ≤ 64 ∧
        parseWifiCredentials (json.bytes ++ [0]) ctx =
          (acceptText ctx.text ssid pass token).map fun text ↦
            (true, { ctx with text := text, wifiConfigd := true }) := by
  rw [parseWifiCredentials_holds (holds_append json.nul_free)]
  cases hssid : quoted ssidQuery json.bytes with
  | none => exact .inl ⟨rfl, by simp⟩
  | some ssid =>
      cases hpass : quoted pwQuery json.bytes with
      | none => exact .inl ⟨rfl, by simp⟩
      | some pass =>
          cases htoken : quoted tknQuery json.bytes with
          | none => exact .inl ⟨rfl, by simp⟩
          | some token =>
              dsimp only
              split
              · rename_i hlong
                refine .inl ⟨rfl, ?_⟩
                rintro _ _ _ ⟨rfl⟩ ⟨rfl⟩ ⟨rfl⟩ hshort
                omega
              · rename_i hshort
                exact .inr ⟨ssid, pass, token, rfl, rfl, rfl, by omega, by omega, by omega, rfl⟩

/-- What the three copies leave: a string in its array if it is shorter, and `hub_loc` if all
are. -/
theorem acceptText_arrays (text : CtxText) {ssid pass token : List UInt8} (hssid : 0 ∉ ssid)
    (hpass : 0 ∉ pass) (htoken : 0 ∉ token) (hssidLen : ssid.length ≤ 64)
    (hpassLen : pass.length ≤ 64) (htokenLen : token.length ≤ 64) :
    ∃ text', acceptText text ssid pass token = some text' ∧
      (get ((text'.bytes.drop wifiSsid).take 64) = some ssid ↔ ssid.length < 64) ∧
      (get ((text'.bytes.drop wifiPass).take 64) = some pass ↔ pass.length < 64) ∧
      (get ((text'.bytes.drop prvToken).take 64) = some token ↔ token.length < 64) ∧
      (ssid.length < 64 → pass.length < 64 → token.length < 64 →
        text'.bytes.drop hubLoc = text.bytes.drop hubLoc) := by
  obtain ⟨first, second, text', haccept, hfirst, hsecond, hthird⟩ :=
    acceptText_eq text hssidLen hpassLen htokenLen
  refine ⟨text', haccept, ?_, ?_, get_array_iff hthird htoken htokenLen, ?_⟩
  · rw [memcpy_array_before hthird (by decide), memcpy_array_before hsecond (by decide)]
    exact get_array_iff hfirst hssid hssidLen
  · rw [memcpy_array_before hthird (by decide)]
    exact get_array_iff hsecond hpass hpassLen
  · intro hssidLt hpassLt htokenLt
    have hend : ∀ {value : List UInt8} {offset : Nat}, value.length < 64 → offset ≤ 128 →
        offset + (value ++ [(0 : UInt8)]).length ≤ hubLoc := by
      intro value offset hvalue hoffset
      rw [List.length_append, List.length_singleton]
      unfold hubLoc
      omega
    rw [memcpy_drop hthird (hend htokenLt (by decide)),
      memcpy_drop hsecond (hend hpassLt (by decide)),
      memcpy_drop hfirst (hend hssidLt (by decide))]

/-- For every body and context, the parser puts the strings into their own arrays or does nothing,
exactly when it does not accept a string of 64 bytes. -/
theorem all_or_nothing_iff (json : CStr) (ctx : AppCtx) :
    AllOrNothing json ctx ↔ LeavesTerminators json := by
  rcases refused_or_strings json ctx with ⟨hrefused, hlong⟩ |
    ⟨ssid, pass, token, hssid, hpass, htoken, hssidLen, hpassLen, htokenLen, hrun⟩
  · refine iff_of_true ⟨false, ctx, hrefused, rfl⟩ ?_
    intro ssid pass token hssid hpass htoken hssidLen hpassLen htokenLen
    exact absurd ⟨hssidLen, hpassLen, htokenLen⟩ (hlong ssid pass token hssid hpass htoken)
  · obtain ⟨text', haccept, hssidArray, hpassArray, htokenArray, hhub⟩ :=
      acceptText_arrays ctx.text (quoted_nul_free hssid) (quoted_nul_free hpass)
        (quoted_nul_free htoken) hssidLen hpassLen htokenLen
    rw [haccept, Option.map_some] at hrun
    constructor
    · rintro ⟨accepted, ctx', hparse, hcase⟩
      rw [hrun] at hparse
      obtain ⟨rfl, rfl⟩ := Prod.mk.inj (Option.some.inj hparse)
      obtain ⟨⟨ssid', hssid', hgot⟩, ⟨pass', hpass', hgot'⟩, ⟨token', htoken', hgot''⟩, _, _⟩ :=
        show Provisions json ctx _ from hcase
      obtain rfl := Option.some.inj (hssid.symm.trans hssid')
      obtain rfl := Option.some.inj (hpass.symm.trans hpass')
      obtain rfl := Option.some.inj (htoken.symm.trans htoken')
      intro other other' other'' hother hother' hother'' _ _ _
      obtain rfl := Option.some.inj (hssid.symm.trans hother)
      obtain rfl := Option.some.inj (hpass.symm.trans hother')
      obtain rfl := Option.some.inj (htoken.symm.trans hother'')
      exact ⟨hssidArray.mp hgot, hpassArray.mp hgot', htokenArray.mp hgot''⟩
    · intro hleaves
      obtain ⟨hssidLt, hpassLt, htokenLt⟩ :=
        hleaves ssid pass token hssid hpass htoken hssidLen hpassLen htokenLen
      exact ⟨true, _, hrun, ⟨ssid, hssid, hssidArray.mpr hssidLt⟩,
        ⟨pass, hpass, hpassArray.mpr hpassLt⟩, ⟨token, htoken, htokenArray.mpr htokenLt⟩,
        hhub hssidLt hpassLt htokenLt, rfl⟩

/-- The context that a device boots with. -/
def bootCtx : AppCtx where
  text := bootText ⟨.ofBytes (lit "192.168.0.2"), by decide⟩

/-- A token of 64 bytes is accepted, and its terminator clears the location of the hub. -/
theorem token_clears_hub : ¬ ∀ (json : CStr) (ctx : AppCtx), AllOrNothing json ctx := by
  intro hclaim
  let json : CStr := .ofBytes (lit "\"ssid\":\"s\",\"password\":\"p\",\"token\":\"" ++
    List.replicate 64 97 ++ lit "\"")
  have htest : (parseWifiCredentials (json.bytes ++ [0]) bootCtx).map (fun result ↦
      result.1 && result.2.text.bytes[hubLoc]? != bootCtx.text.bytes[hubLoc]?) = some true := by
    decide +kernel
  obtain ⟨accepted, ctx', hparse, hcase⟩ := hclaim json bootCtx
  rw [hparse, Option.map_some, Option.some.injEq, Bool.and_eq_true] at htest
  obtain ⟨rfl, hchanged⟩ := htest
  have hhub : (ctx'.text.bytes.drop hubLoc)[0]? = (bootCtx.text.bytes.drop hubLoc)[0]? := by
    rw [(show Provisions json bootCtx ctx' from hcase).hub]
  rw [List.getElem?_drop, List.getElem?_drop, Nat.add_zero] at hhub
  exact bne_iff_ne.mp hchanged hhub

end DirtieNode.AccessPoint
