import DirtieNode.Flashmem.Handlers

/-!
# The boot over an atomic store

`flash_init_handler` over a store that keeps each value whole. The strings of the arrays overlap
when one fills its array, and the three reads still restore all of them: each writes bytes that the
block they come from has in the same places.
-/

namespace DirtieNode.Flashmem

open CString State

/-- The store has the strings of the three arrays. -/
def Stores (values : Values) (text : CtxText) : Prop :=
  ∀ field : Credential, values field.key.bytes = some (text.str field.offset)

/-- The two blocks have the same credentials. -/
def SameStrings (text source : CtxText) : Prop :=
  ∀ field : Credential, text.str field.offset = source.str field.offset

/-- The arrays are inside the block. -/
theorem Credential.offset_lt (field : Credential) : field.offset < 256 := by
  cases field <;> decide

/-- The keys are different. -/
theorem Credential.key_injective : Function.Injective fun field : Credential ↦ field.key.bytes := by
  intro field other
  cases field <;> cases other <;> decide

/-! ## Stores that a boot restores from -/

/-- The store lacks a credential, or has the strings of one block. -/
def Restorable (values : Values) : Prop :=
  (∃ field : Credential, values field.key.bytes = none) ∨ ∃ text, Stores values text

/-- A string in an array of its own, with zeros behind it. -/
def padded (s : List UInt8) : List UInt8 :=
  s ++ List.replicate (64 - s.length) 0

/-- The array has 64 bytes. -/
theorem padded_length {s : List UInt8} (hshort : s.length < 64) : (padded s).length = 64 := by
  rw [padded, List.length_append, List.length_replicate]
  omega

/-- The array holds its string, whatever is behind it. -/
theorem padded_holds {s : List UInt8} (hnul : 0 ∉ s) (hshort : s.length < 64) (rest : List UInt8) :
    Holds (padded s ++ rest) s := by
  obtain ⟨count, hcount⟩ := Nat.exists_eq_add_of_lt hshort
  have hzeros : 64 - s.length = count + 1 := by omega
  rw [padded, hzeros, List.replicate_succ, List.append_assoc, List.cons_append]
  exact holds_append hnul

/-- Three strings that are shorter than the arrays are those of a block. -/
theorem stores_of_short {values : Values} (value : Credential → List UInt8)
    (hvalue : ∀ field : Credential, values field.key.bytes = some (value field))
    (hnul : ∀ field, 0 ∉ value field) (hshort : ∀ field, (value field).length < 64) :
    ∃ text, Stores values text := by
  have hfirst := padded_length (hshort .ssid)
  have hsecond := padded_length (hshort .password)
  have hthird := padded_length (hshort .contract)
  let bytes : List UInt8 := padded (value .ssid) ++ (padded (value .password) ++
    (padded (value .contract) ++ List.replicate 64 0))
  have hsize : bytes.length = 256 := by
    simp [bytes, hfirst, hsecond, hthird]
  have hends : bytes[255]? = some 0 := by
    show (padded (value .ssid) ++ _)[255]? = _
    rw [List.getElem?_append_right (by omega), List.getElem?_append_right (by omega),
      List.getElem?_append_right (by omega), List.getElem?_replicate, if_pos (by omega)]
  have hholds : ∀ field : Credential, Holds (bytes.drop field.offset) (value field) := by
    intro field
    cases field with
    | ssid => exact padded_holds (hnul .ssid) (hshort .ssid) _
    | password =>
        rw [show bytes.drop Credential.password.offset = _ from List.drop_left' hfirst]
        exact padded_holds (hnul .password) (hshort .password) _
    | contract =>
        have hfront : (padded (value .ssid) ++ padded (value .password)).length = 128 := by
          rw [List.length_append, hfirst, hsecond]
        show Holds ((padded (value .ssid) ++ _).drop 128) _
        rw [← List.append_assoc, List.drop_left' hfront]
        exact padded_holds (hnul .contract) (hshort .contract) _
  let text : CtxText := ⟨bytes, hsize, hends⟩
  refine ⟨text, fun field ↦ ?_⟩
  rw [hvalue field, (hholds field).unique (text.str_holds field.offset_lt)]

/-! ## The three reads -/

variable {mallocOk : Bool} {err : DtErr} {ctx ctx' : AppCtx} {store store' : Values}
  {field : Credential}

/-- A read of a key that is missing changes nothing. -/
theorem readCredential_missing (hnone : store field.key.bytes = none)
    (h : readCredential atomicStore field ctx store = some (err, ctx')) :
    err = .keynotfound ∧ ctx' = ctx := by
  have hread : atomicStore.read field.key store ctx.text.bytes field.offset =
      some (.keynotfound, ctx.text.bytes) := by
    simp [atomicStore, hnone]
  have htext : CtxText.ofBytes ctx.text.bytes = some ctx.text :=
    dif_pos ⟨ctx.text.size, ctx.text.ends⟩
  simp only [readCredential, hread, htext, bind, pure, Option.bind_some, Option.some.injEq,
    Prod.mk.injEq] at h
  exact ⟨h.1.symm, h.2.symm⟩

/-- A read of a stored string makes the array agree with the block that the string is from. -/
theorem readCredential_stored {source : CtxText}
    (hsome : store field.key.bytes = some (source.str field.offset))
    (h : readCredential atomicStore field ctx store = some (err, ctx')) :
    err = .ok ∧ ∃ text, ctx' = { ctx with text := text } ∧
      ∀ i, text.bytes[i]? =
        if field.offset ≤ i ∧ i ≤ field.offset + (source.str field.offset).length then
          source.bytes[i]? else ctx.text.bytes[i]? := by
  simp only [readCredential, atomicStore, hsome, bind, pure, Option.bind_eq_some_iff,
    Option.map_eq_some_iff, Option.some.injEq, Prod.mk.injEq] at h
  obtain ⟨_, ⟨bytes, hcopy, rfl⟩, text, htext, rfl, rfl⟩ := h
  obtain rfl : text.bytes = bytes := by
    unfold CtxText.ofBytes at htext
    split at htext
    · rw [← Option.some.inj htext]
    · simp at htext
  refine ⟨rfl, text, rfl, fun i ↦ ?_⟩
  rw [memcpy_getElem? hcopy, List.length_append, List.length_singleton]
  by_cases hinside : field.offset ≤ i ∧ i ≤ field.offset + (source.str field.offset).length
  · rw [if_pos (by omega), if_pos hinside, ← source.bytes_str field.offset_lt (by omega),
      Nat.add_sub_cancel' hinside.1]
  · rw [if_neg (by omega), if_neg hinside]

/-- The boot reads, and does not change the store. -/
theorem flashInit_atomic (h : flashInitHandler atomicStore mallocOk ctx store =
    some (err, ctx', store')) : store' = store ∧ Restoring atomicStore ctx store err ctx' := by
  rcases flashInitHandler_cases h with ⟨hinit, herr, _⟩ | ⟨hinit, hread⟩ <;>
    simp only [atomicStore, Option.some.injEq, Prod.mk.injEq] at hinit
  · exact absurd hinit.1.symm herr
  · obtain rfl := hinit.2
    exact ⟨rfl, hread⟩

/-- The reads of a store with the strings of a block restore them. -/
theorem restoring_sameStrings {source : CtxText} (hstores : Stores store source)
    (h : Restoring atomicStore ctx store err ctx') : SameStrings ctx'.text source := by
  cases h with
  | unconfigured hssid => simpa using (readCredential_stored (hstores .ssid) hssid).1
  | noSsid hssid herr => exact absurd (readCredential_stored (hstores .ssid) hssid).1 herr
  | noPassword _ hpassword herr =>
      exact absurd (readCredential_stored (hstores .password) hpassword).1 herr
  | noContract _ _ hcontract herr =>
      exact absurd (readCredential_stored (hstores .contract) hcontract).1 herr
  | restored hssid hpassword hcontract =>
      obtain ⟨_, text, rfl, hfirst⟩ := readCredential_stored (hstores .ssid) hssid
      obtain ⟨_, text, rfl, hsecond⟩ := readCredential_stored (hstores .password) hpassword
      obtain ⟨_, text, rfl, hthird⟩ := readCredential_stored (hstores .contract) hcontract
      -- a later read changes nothing that agrees with the source already
      intro field
      refine CtxText.str_congr field.offset_lt fun i hi ↦ ?_
      rw [hthird]
      split
      · rfl
      · rename_i hnotThird
        rw [hsecond]
        split
        · rfl
        · rename_i hnotSecond
          rw [hfirst, if_pos]
          cases field with
          | ssid => exact ⟨by omega, by omega⟩
          | password => exact absurd ⟨by omega, by omega⟩ hnotSecond
          | contract => exact absurd ⟨by omega, by omega⟩ hnotThird

/-- The reads of a store without one of the credentials do not set `wifi_configd`. -/
theorem restoring_incomplete (hnone : ∃ field : Credential, store field.key.bytes = none)
    (h : Restoring atomicStore ctx store err ctx') : ctx'.wifiConfigd = ctx.wifiConfigd := by
  cases h with
  | unconfigured hssid =>
      obtain ⟨_, rfl⟩ := readCredential_ctx hssid
      rfl
  | noSsid hssid =>
      obtain ⟨_, rfl⟩ := readCredential_ctx hssid
      rfl
  | noPassword hssid hpassword =>
      obtain ⟨_, rfl⟩ := readCredential_ctx hssid
      obtain ⟨_, rfl⟩ := readCredential_ctx hpassword
      rfl
  | noContract hssid hpassword hcontract =>
      obtain ⟨_, rfl⟩ := readCredential_ctx hssid
      obtain ⟨_, rfl⟩ := readCredential_ctx hpassword
      obtain ⟨_, rfl⟩ := readCredential_ctx hcontract
      rfl
  | restored hssid hpassword hcontract =>
      obtain ⟨field, hmissing⟩ := hnone
      cases field with
      | ssid => simpa using (readCredential_missing hmissing hssid).1
      | password => simpa using (readCredential_missing hmissing hpassword).1
      | contract => simpa using (readCredential_missing hmissing hcontract).1

end DirtieNode.Flashmem
