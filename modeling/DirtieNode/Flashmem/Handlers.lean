import DirtieNode.Flashmem.Store
import DirtieNode.State.Ram

/-!
# The flash handlers

`flash_init_handler` and `flash_write_handler` over the three functions of the store that they
call. `byteStore` is the store of `flashmem.c`.
-/

namespace DirtieNode.Flashmem

open CString State

/-- The functions of a store. A result of `none` is undefined behaviour. -/
structure StoreOps (σ : Type) where
  initializeFlash : Bool → Bool → σ → Option (DtErr × σ)
  write : CStr → CStr → σ → Option (DtErr × σ)
  read : CStr → σ → List UInt8 → Nat → Option (DtErr × List UInt8)

/-- The store in the flash region. -/
def byteStore : StoreOps Region := ⟨initializeFlash, write, read⟩

/-- The values under the keys of a store that keeps them apart. -/
abbrev Values := List UInt8 → Option (List UInt8)

/-- A store in which every `write` stores its value at once, and `read` returns it. -/
def atomicStore : StoreOps Values where
  initializeFlash _ _ values := some (.ok, values)
  write key val values := some (.ok, fun k ↦ if k = key.bytes then some val.bytes else values k)
  read key values out outVal :=
    match values key.bytes with
    | none => some (.keynotfound, out)
    | some val => (memcpy out outVal (val ++ [0])).map fun out ↦ (.ok, out)

/-- The three credentials, in the order in which they are written. -/
inductive Credential where
  | ssid
  | password
  | contract
  deriving DecidableEq, Repr

/-- The key of a credential. -/
def Credential.key : Credential → CStr
  | .ssid => .ofBytes (lit "ssid")
  | .password => .ofBytes (lit "password")
  | .contract => .ofBytes (lit "contract")

/-- The array of a credential in the context. -/
def Credential.offset : Credential → Nat
  | .ssid => wifiSsid
  | .password => wifiPass
  | .contract => prvToken

variable {σ : Type}

/-- One `read` of `flash_init_handler`. -/
def readCredential (ops : StoreOps σ) (field : Credential) (ctx : AppCtx) (store : σ) :
    Option (DtErr × AppCtx) := do
  let (err, bytes) ← ops.read field.key store ctx.text.bytes field.offset
  let text ← CtxText.ofBytes bytes
  pure (err, { ctx with text := text })

/-- `flash_init_handler`. -/
def flashInitHandler (ops : StoreOps σ) (mallocOk : Bool) (ctx : AppCtx) (store : σ) :
    Option (DtErr × AppCtx × σ) := do
  let (err, store) ← ops.initializeFlash false mallocOk store
  if err ≠ .ok then pure (err, ctx, store)
  else
    let (err, ctx) ← readCredential ops .ssid ctx store
    if err = .keynotfound then
      -- not yet configured
      pure (.ok, { ctx with flashInitd := true }, store)
    else if err ≠ .ok then pure (err, ctx, store)
    else
      let (err, ctx) ← readCredential ops .password ctx store
      if err ≠ .ok then pure (err, ctx, store)
      else
        let (err, ctx) ← readCredential ops .contract ctx store
        if err ≠ .ok then pure (err, ctx, store)
        else
          pure (.ok,
            { ctx with wifiConfigd := true, flashInitd := true, flashWritten := true }, store)

/-- The reads of `flash_init_handler`: the credentials are missing, one of the three reads fails,
or all of them are restored. -/
inductive Restoring (ops : StoreOps σ) (ctx : AppCtx) (store : σ) : DtErr → AppCtx → Prop
  | unconfigured {ssid : AppCtx} (hssid : readCredential ops .ssid ctx store =
      some (.keynotfound, ssid)) : Restoring ops ctx store .ok { ssid with flashInitd := true }
  | noSsid {err : DtErr} {ssid : AppCtx}
      (hssid : readCredential ops .ssid ctx store = some (err, ssid))
      (herr : err ≠ .ok) (hfound : err ≠ .keynotfound) : Restoring ops ctx store err ssid
  | noPassword {err : DtErr} {ssid password : AppCtx}
      (hssid : readCredential ops .ssid ctx store = some (.ok, ssid))
      (hpassword : readCredential ops .password ssid store = some (err, password))
      (herr : err ≠ .ok) : Restoring ops ctx store err password
  | noContract {err : DtErr} {ssid password contract : AppCtx}
      (hssid : readCredential ops .ssid ctx store = some (.ok, ssid))
      (hpassword : readCredential ops .password ssid store = some (.ok, password))
      (hcontract : readCredential ops .contract password store = some (err, contract))
      (herr : err ≠ .ok) : Restoring ops ctx store err contract
  | restored {ssid password contract : AppCtx}
      (hssid : readCredential ops .ssid ctx store = some (.ok, ssid))
      (hpassword : readCredential ops .password ssid store = some (.ok, password))
      (hcontract : readCredential ops .contract password store = some (.ok, contract)) :
      Restoring ops ctx store .ok
        { contract with wifiConfigd := true, flashInitd := true, flashWritten := true }

/-- `flash_init_handler` initialises the flash and reads. -/
theorem flashInitHandler_cases {ops : StoreOps σ} {mallocOk : Bool} {ctx ctx' : AppCtx}
    {store store' : σ} {err : DtErr}
    (h : flashInitHandler ops mallocOk ctx store = some (err, ctx', store')) :
    ops.initializeFlash false mallocOk store = some (err, store') ∧ err ≠ .ok ∧ ctx' = ctx ∨
      ops.initializeFlash false mallocOk store = some (.ok, store') ∧
        Restoring ops ctx store' err ctx' := by
  simp only [flashInitHandler, bind, pure, Option.bind_eq_some_iff] at h
  obtain ⟨⟨initErr, cleared⟩, hinit, h⟩ := h
  by_cases hinitErr : initErr = .ok
  · obtain rfl := hinitErr
    simp only [ne_eq, not_true_eq_false, if_false, Option.bind_eq_some_iff] at h
    obtain ⟨⟨ssidErr, ssid⟩, hssid, h⟩ := h
    split at h
    · rename_i hmissing
      obtain rfl : ssidErr = .keynotfound := hmissing
      simp only [Option.some.injEq, Prod.mk.injEq] at h
      obtain ⟨rfl, rfl, rfl⟩ := h
      exact .inr ⟨hinit, .unconfigured hssid⟩
    · rename_i hfound
      split at h
      · rename_i herr
        simp only [Option.some.injEq, Prod.mk.injEq] at h
        obtain ⟨rfl, rfl, rfl⟩ := h
        exact .inr ⟨hinit, .noSsid hssid herr hfound⟩
      · rename_i hssidErr
        obtain rfl : ssidErr = .ok := not_not.mp hssidErr
        simp only [Option.bind_eq_some_iff] at h
        obtain ⟨⟨passwordErr, password⟩, hpassword, h⟩ := h
        split at h
        · rename_i herr
          simp only [Option.some.injEq, Prod.mk.injEq] at h
          obtain ⟨rfl, rfl, rfl⟩ := h
          exact .inr ⟨hinit, .noPassword hssid hpassword herr⟩
        · rename_i hpasswordErr
          obtain rfl : passwordErr = .ok := not_not.mp hpasswordErr
          simp only [Option.bind_eq_some_iff] at h
          obtain ⟨⟨contractErr, contract⟩, hcontract, h⟩ := h
          split at h
          · rename_i herr
            simp only [Option.some.injEq, Prod.mk.injEq] at h
            obtain ⟨rfl, rfl, rfl⟩ := h
            exact .inr ⟨hinit, .noContract hssid hpassword hcontract herr⟩
          · rename_i hcontractErr
            obtain rfl : contractErr = .ok := not_not.mp hcontractErr
            simp only [Option.some.injEq, Prod.mk.injEq] at h
            obtain ⟨rfl, rfl, rfl⟩ := h
            exact .inr ⟨hinit, .restored hssid hpassword hcontract⟩
  · simp only [ne_eq, hinitErr, not_false_eq_true, if_true, Option.some.injEq,
      Prod.mk.injEq] at h
    obtain ⟨rfl, rfl, rfl⟩ := h
    exact .inl ⟨hinit, hinitErr, rfl⟩

/-- A success has read the store behind the initialised flash. -/
theorem flashInitHandler_ok {ops : StoreOps σ} {mallocOk : Bool} {ctx ctx' : AppCtx}
    {store store' : σ} (h : flashInitHandler ops mallocOk ctx store = some (.ok, ctx', store')) :
    ops.initializeFlash false mallocOk store = some (.ok, store') ∧
      Restoring ops ctx store' .ok ctx' := by
  rcases flashInitHandler_cases h with ⟨-, herr, -⟩ | hread
  · exact absurd rfl herr
  · exact hread

/-- The results of the reads decide what `flash_init_handler` returns. -/
theorem flashInitHandler_restoring {ops : StoreOps σ} {mallocOk : Bool} {ctx ctx' : AppCtx}
    {store store' : σ} {err : DtErr}
    (hinit : ops.initializeFlash false mallocOk store = some (.ok, store'))
    (h : Restoring ops ctx store' err ctx') :
    flashInitHandler ops mallocOk ctx store = some (err, ctx', store') := by
  cases h with
  | unconfigured hssid => simp [flashInitHandler, hinit, hssid]
  | noSsid hssid herr hfound => simp [flashInitHandler, hinit, hssid, herr, hfound]
  | noPassword hssid hpassword herr => simp [flashInitHandler, hinit, hssid, hpassword, herr]
  | noContract hssid hpassword hcontract herr =>
      simp [flashInitHandler, hinit, hssid, hpassword, hcontract, herr]
  | restored hssid hpassword hcontract =>
      simp [flashInitHandler, hinit, hssid, hpassword, hcontract]

/-- A read changes the arrays only. -/
theorem readCredential_ctx {ops : StoreOps σ} {field : Credential} {ctx ctx' : AppCtx} {store : σ}
    {err : DtErr} (h : readCredential ops field ctx store = some (err, ctx')) :
    ∃ text, ctx' = { ctx with text := text } := by
  simp only [readCredential, bind, pure, Option.bind_eq_some_iff, Option.some.injEq,
    Prod.mk.injEq] at h
  obtain ⟨_, _, text, _, _, rfl⟩ := h
  exact ⟨text, rfl⟩

/-- One `write` of `flash_write_handler`. -/
def writeCredential (ops : StoreOps σ) (field : Credential) (ctx : AppCtx) (store : σ) :
    Option (DtErr × σ) :=
  ops.write field.key (ctx.text.cstr field.offset) store

/-- `flash_write_handler`. -/
def flashWriteHandler (ops : StoreOps σ) (ctx : AppCtx) (store : σ) :
    Option (DtErr × AppCtx × σ) := do
  let (err, store) ← writeCredential ops .ssid ctx store
  if err ≠ .ok then pure (err, ctx, store)
  else
    let (err, store) ← writeCredential ops .password ctx store
    if err ≠ .ok then pure (err, ctx, store)
    else
      let (err, store) ← writeCredential ops .contract ctx store
      if err ≠ .ok then pure (err, ctx, store)
      else pure (.ok, { ctx with flashWritten := true }, store)

end DirtieNode.Flashmem
