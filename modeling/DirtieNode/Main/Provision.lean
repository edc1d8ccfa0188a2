import DirtieNode.Flashmem.Restore
import DirtieNode.Main.Persist

/-!
# Provisioning and flash

Whether the credentials in flash are those in the context. The arrays of the context change with
each accepted request, and the flash in the three writes of a visit of `FLASH_WRITE` alone.
-/

namespace DirtieNode.Main

open CString Flashmem Logger State Transition Util

variable {env : Env} {node node' : Node Values} {store : Values}

/-- A request is accepted and leaves these arrays. -/
def Accepts (taken : Taken (Node Values) Event) (text : CtxText) : Prop :=
  ∃ json, taken.event = .post json ∧
    AccessPoint.parseWifiCredentials (json.bytes ++ [0]) taken.before.ram.ctx =
      some (true, taken.after.ram.ctx) ∧ taken.after.ram.ctx.text = text

/-- Some request leaves these arrays. -/
def Requested (text : CtxText) : Prop :=
  ∃ (json : CStr) (ctx ctx' : AppCtx),
    AccessPoint.parseWifiCredentials (json.bytes ++ [0]) ctx = some (true, ctx') ∧ ctx'.text = text

/-- The store at boot holds the credentials of one request, or not all of them. -/
def Untorn (store : Values) : Prop :=
  (∃ field : Credential, store field.key.bytes = none) ∨ ∃ text, Requested text ∧ Stores store text

/-- The arrays are those of a request that the run has accepted, or of the one whose credentials
the store had at boot. -/
def Origin (store : Values) (trace : List (Taken (Node Values) Event)) (text : CtxText) : Prop :=
  (∃ taken ∈ trace, Accepts taken text) ∨ Requested text ∧ Stores store text

/-- The credentials in flash and those in the context are from the same request. -/
def Agrees (store : Values) (trace : List (Taken (Node Values) Event)) (node : Node Values) :
    Prop :=
  ∃ text, Origin store trace text ∧ Stores node.store text ∧ SameStrings node.ram.ctx.text text

/-- The credentials that `FLASH_WRITE` will not write again before the loop goes on. -/
def settled (node : Node Values) : List Credential :=
  match node.ram.ctx.loopState with
  | .flashInit | .wifiConfig => []
  | .flashWrite =>
      match node.pc with
      | .call => []
      | .writePassword => [.ssid]
      | .writeContract => [.ssid, .password]
      | .update _ => [.ssid, .password, .contract]
  | _ => [.ssid, .password, .contract]

/-- The event is a request. -/
def isPost : Event → Bool
  | .post _ => true
  | _ => false

/-- A request comes to an open server, and keeps the credentials that are settled. -/
def KeepsSettled (taken : Taken (Node Values) Event) : Prop :=
  isPost taken.event = true →
    taken.before.hosting = true ∧
      ∀ field ∈ settled taken.before,
        taken.after.ram.ctx.text.str field.offset = taken.before.ram.ctx.text.str field.offset

instance (taken : Taken (Node Values) Event) : Decidable (KeepsSettled taken) :=
  inferInstanceAs (Decidable (_ → _ ∧ ∀ _ ∈ _, _))

/-- The first handler after boot finds a store that it can restore from. -/
def BootsRestorable (taken : Taken (Node Values) Event) : Prop :=
  ∀ env, taken.event = .main env → taken.before.pc = .call →
    taken.before.ram.ctx.loopState = .flashInit → Restorable taken.before.store

/-- What is settled is in flash. -/
structure SettledInv (node : Node Values) : Prop where
  inv : Inv node
  unopened : node.ram.ctx.loopState = .flashInit → node.hosting = false
  restored : node.ram.ctx.loopState = .flashInit → node.ram.ctx.wifiConfigd = true →
    node.pc ≠ .call ∧ node.ram.ctx.flashInitd = true ∧ Stores node.store node.ram.ctx.text
  configd : LoopState.flashWrite.toNat ≤ node.ram.ctx.loopState.toNat →
    node.ram.ctx.wifiConfigd = true
  settled : ∀ field ∈ settled node,
    node.store field.key.bytes = some (node.ram.ctx.text.str field.offset)

/-- What is settled is in flash, and the arrays have one origin. -/
structure ProvisionInv (store : Values) (trace : List (Taken (Node Values) Event))
    (node : Node Values) : Prop extends SettledInv node where
  unwritten : node.ram.ctx.loopState = .flashInit → node.store = store
  origin : node.ram.ctx.wifiConfigd = true →
    ∃ text, Origin store trace text ∧ SameStrings node.ram.ctx.text text

/-- A step keeps the origins of the arrays. -/
theorem Origin.cons {trace : List (Taken (Node Values) Event)} {text : CtxText}
    {taken : Taken (Node Values) Event} (h : Origin store trace text) :
    Origin store (taken :: trace) text := by
  rcases h with ⟨other, hmem, haccepts⟩ | hboot
  · exact .inl ⟨other, List.mem_cons_of_mem _ hmem, haccepts⟩
  · exact .inr hboot

/-! ## What a step does to the credentials -/

/-- An event between the steps of `main` is an accepted request, or leaves the credentials alone. -/
theorem async_credentials {event : Event} {ram : Ram} (h : asyncStep node.ram event = some ram) :
    (ram.ctx.loopState = node.ram.ctx.loopState ∧ ram.ctx.flashInitd = node.ram.ctx.flashInitd ∧
      ram.ctx.text = node.ram.ctx.text ∧ ram.ctx.wifiConfigd = node.ram.ctx.wifiConfigd) ∨
    ∃ text, isPost event = true ∧ Accepts ⟨node, event, { node with ram := ram }⟩ text ∧
      ram = { node.ram with ctx := { node.ram.ctx with text := text, wifiConfigd := true } } := by
  cases event with
  | main env => simp [asyncStep] at h
  | post json =>
      simp only [asyncStep, bind, pure, Option.bind_eq_some_iff, Option.some.injEq] at h
      obtain ⟨⟨accepted, ctx⟩, hparse, rfl⟩ := h
      rcases parse_cases hparse with ⟨_, rfl⟩ | ⟨rfl, text, rfl⟩
      · exact .inl ⟨rfl, rfl, rfl, rfl⟩
      · exact .inr ⟨text, rfl, ⟨json, rfl, hparse, rfl⟩, rfl⟩
  | tick =>
      obtain rfl := Option.some.inj h
      have hsame : ∃ setPublish, sampleRateUpdate node.ram.ctx =
          { node.ram.ctx with setPublish := setPublish } := by
        unfold sampleRateUpdate
        split <;> exact ⟨_, rfl⟩
      obtain ⟨setPublish, hctx⟩ := hsame
      exact .inl ⟨by simp [hctx], by simp [hctx], by simp [hctx], by simp [hctx]⟩
  | dumpRequest | resetRequest | ntp =>
      obtain rfl := Option.some.inj h
      exact .inl ⟨rfl, rfl, rfl, rfl⟩

/-- The call of `flash_init_handler` reads the store. -/
theorem callHandler_flashInit (hstate : node.ram.ctx.loopState = .flashInit)
    (hrun : callHandler atomicStore env node = some node') :
    ∃ err, node'.hosting = node.hosting ∧ node'.store = node.store ∧
      Restoring atomicStore node.ram.ctx node.store err node'.ram.ctx := by
  simp only [callHandler, hstate, bind, pure, Option.bind_eq_some_iff, Option.some.injEq] at hrun
  obtain ⟨⟨err, ctx, after⟩, hinit, rfl⟩ := hrun
  obtain ⟨hstore, hread⟩ := flashInit_atomic hinit
  exact ⟨err, rfl, hstore, hread⟩

/-- The handlers of the states other than the first and `FLASH_WRITE` keep the credentials. -/
theorem callHandler_frame (hinit : node.ram.ctx.loopState ≠ .flashInit)
    (hflash : node.ram.ctx.loopState ≠ .flashWrite)
    (hrun : callHandler atomicStore env node = some node') :
    node'.store = node.store ∧ node'.ram.ctx.text = node.ram.ctx.text ∧
      node'.ram.ctx.wifiConfigd = node.ram.ctx.wifiConfigd := by
  have hstore : node'.store = node.store := by
    cases handlerCall hrun with
    | flashInit hstate _ => exact absurd hstate hinit
    | wifiConfig _ _ _ => rfl
    | flashWrite hstate _ => exact absurd hstate hflash
    | ram _ => rfl
  obtain ⟨err, _, hctx⟩ := callHandler_cases hrun hflash
  refine ⟨hstore, ?_⟩
  generalize node'.ram.ctx = ctx at hctx ⊢
  cases hctx <;> first | exact ⟨rfl, rfl⟩ | contradiction

/-- A write stores the string of its array. -/
theorem writeCredential_atomic {field : Credential} {ctx : AppCtx} {values values' : Values}
    {err : DtErr} (h : writeCredential atomicStore field ctx values = some (err, values')) :
    err = .ok ∧ values' field.key.bytes = some (ctx.text.str field.offset) ∧
      ∀ other : Credential, other ≠ field → values' other.key.bytes = values other.key.bytes := by
  simp only [writeCredential, atomicStore, Option.some.injEq, Prod.mk.injEq] at h
  obtain ⟨rfl, rfl⟩ := h
  refine ⟨rfl, by simp [CtxText.cstr], fun other hother ↦ if_neg fun hkey ↦ hother ?_⟩
  exact Credential.key_injective hkey

/-- Where `update_state` can come from. -/
theorem update_origin {ctx ctx' : AppCtx} {dumpLogs : Bool} (h : Flags ctx)
    (hctx : UpdateChange ctx (switchTarget ctx) dumpLogs ctx') :
    (ctx'.loopState = .flashInit → ctx.loopState = .flashInit ∧ ctx.flashInitd = false) ∧
      (LoopState.flashWrite.toNat ≤ ctx'.loopState.toNat →
        ctx'.wifiConfigd = ctx.wifiConfigd ∧
          (LoopState.flashWrite.toNat ≤ ctx.loopState.toNat ∨ ctx.wifiConfigd = true)) ∧
      (LoopState.mqttInit.toNat ≤ ctx'.loopState.toNat → ctx.loopState ≠ .wifiConfig) := by
  have hlate : ctx.ready = true →
      ctx.wifiConfigd = true ∧ LoopState.flashWrite.toNat < ctx.loopState.toNat := by
    intro hready
    simp only [AppCtx.ready, Bool.and_eq_true] at hready
    refine ⟨hready.1.1.1, not_le.mp fun hle ↦ ?_⟩
    have hinit := h.early hle
    simp [hready.1.2] at hinit
  cases hctx with
  | reset => simp [LoopState.toNat]
  | publish _ hready | dump _ hready =>
      obtain ⟨hset, hlt⟩ := hlate hready
      refine ⟨by simp, fun _ ↦ ⟨rfl, .inr hset⟩, fun _ hconfig ↦ ?_⟩
      simp [hconfig, LoopState.toNat] at hlt
  | switch =>
      dsimp only [switchTarget]
      cases hstate : ctx.loopState <;> simp only [LoopState.toNat] <;> grind

/-- `update_state` keeps the arrays, and does not set `wifi_configd`. -/
theorem update_credentials {ctx ctx' : AppCtx} {target : LoopState} {dumpLogs : Bool}
    (h : UpdateChange ctx target dumpLogs ctx') :
    ctx'.text = ctx.text ∧ (ctx'.wifiConfigd = true → ctx.wifiConfigd = true) := by
  cases h <;> simp

/-! ## What is settled -/

/-- Nothing is settled after boot. -/
theorem settledInv_boot (hub : Hub) (env : Env) (store : Values) :
    SettledInv (boot hub env store) := by
  refine ⟨inv_boot hub env store, fun _ ↦ rfl, ?_, ?_, ?_⟩ <;>
    simp [boot, settled, LoopState.toNat]

/-- From `MQTT_INIT` on, all three credentials are settled. -/
theorem settled_late (hle : LoopState.mqttInit.toNat ≤ node.ram.ctx.loopState.toNat)
    (field : Credential) : field ∈ settled node := by
  unfold settled
  cases hstate : node.ram.ctx.loopState <;> simp only [hstate, LoopState.toNat] at hle <;>
    first | omega | (cases field <;> simp)

/-- A step that keeps the arrays, the flag, the store and what is settled. -/
theorem SettledInv.of_same (h : SettledInv node) (hinv : Inv node')
    (hstate : node'.ram.ctx.loopState = node.ram.ctx.loopState)
    (hpc : node.ram.ctx.loopState = .flashInit ∨ node.ram.ctx.loopState = .flashWrite →
      node'.pc = node.pc ∧ node'.ram.ctx.flashInitd = node.ram.ctx.flashInitd)
    (hhosting : node.ram.ctx.loopState = .flashInit → node'.hosting = node.hosting)
    (htext : node'.ram.ctx.text = node.ram.ctx.text)
    (hconfigd : node'.ram.ctx.wifiConfigd = node.ram.ctx.wifiConfigd)
    (hstore : node'.store = node.store) : SettledInv node' := by
  refine ⟨hinv, fun hinit ↦ ?_, fun hinit hset ↦ ?_, fun hle ↦ ?_, fun field hfield ↦ ?_⟩
  · rw [hstate] at hinit
    rw [hhosting hinit]
    exact h.unopened hinit
  · rw [hstate] at hinit
    obtain ⟨hplace, hflag⟩ := hpc (.inl hinit)
    rw [hplace, hflag, hstore, htext]
    exact h.restored hinit (hconfigd ▸ hset)
  · rw [hconfigd]
    exact h.configd (hstate ▸ hle)
  · have hkept : Main.settled node' = Main.settled node := by
      unfold Main.settled
      rw [hstate]
      cases hflash : node.ram.ctx.loopState <;> try rfl
      dsimp only
      rw [(hpc (.inr hflash)).1]
    rw [hstore, htext]
    exact h.settled field (hkept ▸ hfield)

/-- A request that keeps what is settled. -/
theorem SettledInv.accepted {event : Event} {text : CtxText} (h : SettledInv node)
    (hpost : isPost event = true)
    (hafter : node' = { node with
      ram := { node.ram with ctx := { node.ram.ctx with text := text, wifiConfigd := true } } })
    (hinv : Inv node') (hkeeps : KeepsSettled ⟨node, event, node'⟩) : SettledInv node' := by
  obtain ⟨hopen, hkept⟩ := hkeeps hpost
  subst hafter
  have hnotInit : node.ram.ctx.loopState ≠ .flashInit := by
    intro hinit
    simp [h.unopened hinit] at hopen
  refine ⟨hinv, fun hinit ↦ absurd hinit hnotInit, fun hinit ↦ absurd hinit hnotInit, fun _ ↦ rfl,
    fun field hfield ↦ ?_⟩
  exact (h.settled field hfield).trans (congrArg some (hkept field hfield).symm)

/-- A write in `FLASH_WRITE` settles its credential. -/
theorem SettledInv.written {field : Credential} {err : DtErr}
    (h : SettledInv node) (hinv : Inv node') (hstate : node.ram.ctx.loopState = .flashWrite)
    (hrun : writeCredential atomicStore field node.ram.ctx node.store = some (err, node'.store))
    (hafter : node'.ram.ctx.loopState = .flashWrite)
    (htext : node'.ram.ctx.text = node.ram.ctx.text)
    (hconfigd : node'.ram.ctx.wifiConfigd = node.ram.ctx.wifiConfigd)
    (hsettled : ∀ other ∈ Main.settled node', other = field ∨ other ∈ Main.settled node) :
    SettledInv node' := by
  obtain ⟨_, hwritten, hothers⟩ := writeCredential_atomic hrun
  refine ⟨hinv, fun hinit ↦ by simp [hafter] at hinit, fun hinit ↦ by simp [hafter] at hinit,
    fun _ ↦ ?_, fun other hother ↦ ?_⟩
  · rw [hconfigd]
    exact h.configd (by simp [hstate])
  · rw [htext]
    by_cases hfield : other = field
    · rw [hfield, hwritten]
    · rw [hothers other hfield]
      exact h.settled other ((hsettled other hother).resolve_left hfield)

/-- At the call of `flash_init_handler` no credentials have been restored. -/
theorem SettledInv.unrestored (h : SettledInv node) (hstate : node.ram.ctx.loopState = .flashInit)
    (hcall : node.pc = .call) : node.ram.ctx.wifiConfigd = false := by
  by_contra hset
  exact (h.restored hstate (by simpa using hset)).1 hcall

/-- The boot restores the strings of one block, or does not set `wifi_configd`. -/
theorem SettledInv.booted {err : DtErr} (hstore : Restorable node.store) (h : SettledInv node)
    (hinv : Inv node') (hstate : node.ram.ctx.loopState = .flashInit) (hcall : node.pc = .call)
    (hrun : callHandler atomicStore env node = some node') (hpc : node'.pc = .update err)
    (hctx : HandlerChange env node.ram.ctx err node'.ram.ctx) : SettledInv node' := by
  have hafter : node'.ram.ctx.loopState = .flashInit := (loopState_handler hctx).trans hstate
  have hclear := h.unrestored hstate hcall
  obtain ⟨_, hhosting, hsame, hread⟩ := callHandler_flashInit hstate hrun
  refine ⟨hinv, fun _ ↦ hhosting.trans (h.unopened hstate), fun _ hset ↦ ?_,
    fun hle ↦ by simp [hafter, LoopState.toNat] at hle, fun field hfield ↦ ?_⟩
  · rcases hstore with hnone | ⟨text, hstores⟩
    · have hkept := restoring_incomplete hnone hread
      simp [hkept, hclear] at hset
    · have hstrings := restoring_sameStrings hstores hread
      refine ⟨by simp [hpc], ?_, fun field ↦ by rw [hsame, hstores field, hstrings field]⟩
      generalize node'.ram.ctx = ctx at hctx hset ⊢
      cases hctx <;> simp_all
  · simp [Main.settled, hafter] at hfield

/-- `update_state` goes on from `FLASH_WRITE` when all three credentials are settled. -/
theorem SettledInv.updated {err : DtErr} (h : SettledInv node)
    (hinv : Inv (updateStep env err node)) (hpc : node.pc = .update err)
    (hctx : UpdateChange node.ram.ctx (switchTarget node.ram.ctx) (dumpFlag env err node.ram)
      (updateStep env err node).ram.ctx) : SettledInv (updateStep env err node) := by
  obtain ⟨hfirst, hconfigd, hsource⟩ := update_origin h.inv.flags hctx
  obtain ⟨htext, hset⟩ := update_credentials hctx
  have hplace : (updateStep env err node).pc = .call := rfl
  have hstore : (updateStep env err node).store = node.store := rfl
  have hhosting : (updateStep env err node).hosting = node.hosting := rfl
  generalize updateStep env err node = after at *
  refine ⟨hinv, fun hinit ↦ ?_, fun hinit hagain ↦ ?_, fun hle ↦ ?_, fun field hfield ↦ ?_⟩
  · rw [hhosting]
    exact h.unopened (hfirst hinit).1
  · obtain ⟨hbefore, hfailed⟩ := hfirst hinit
    have hflag := (h.restored hbefore (hset hagain)).2.1
    simp [hfailed] at hflag
  · obtain ⟨hkept, hbefore | hbefore⟩ := hconfigd hle
    · rw [hkept, h.configd hbefore]
    · rw [hkept, hbefore]
  · -- nothing is settled in the early states before a call
    have hle : LoopState.mqttInit.toNat ≤ after.ram.ctx.loopState.toNat := by
      unfold Main.settled at hfield
      rw [hplace] at hfield
      cases hstate : after.ram.ctx.loopState <;> simp_all [LoopState.toNat]
    rw [hstore, htext]
    obtain ⟨_, hbefore⟩ := hconfigd (Nat.le_of_succ_le hle)
    have hnotConfig := hsource hle
    cases hstate : node.ram.ctx.loopState with
    | flashInit =>
        have hagain : node.ram.ctx.wifiConfigd = true :=
          hbefore.resolve_left (by simp [hstate, LoopState.toNat])
        exact (h.restored hstate hagain).2.2 field
    | wifiConfig => exact absurd hstate hnotConfig
    | flashWrite =>
        refine h.settled field ?_
        unfold Main.settled
        rw [hstate, hpc]
        cases field <;> simp
    | _ => exact h.settled field (settled_late (by simp [hstate, LoopState.toNat]) field)

/-- A step keeps what is settled in flash. -/
theorem settledInv_step {event : Event} (h : SettledInv node)
    (hstep : step atomicStore node event = some node')
    (hkeeps : KeepsSettled ⟨node, event, node'⟩)
    (hboot : BootsRestorable ⟨node, event, node'⟩) : SettledInv node' := by
  have hinv := inv_step h.inv hstep
  cases step_cases hstep with
  | async _ hevent _ =>
      rcases async_credentials hevent with ⟨hstate, hflag, htext, hconfigd⟩ |
        ⟨text, hpost, _, rfl⟩
      · exact h.of_same hinv hstate (fun _ ↦ ⟨rfl, hflag⟩) (fun _ ↦ rfl) htext hconfigd rfl
      · exact h.accepted hpost rfl hinv hkeeps
  | @call env err _ hcall hstate hrun hpc hctx =>
      by_cases hinit : node.ram.ctx.loopState = .flashInit
      · exact h.booted (hboot env rfl hcall hinit) hinv hinit hcall hrun hpc hctx
      · obtain ⟨hsame, htext, hconfigd⟩ := callHandler_frame hinit hstate hrun
        exact h.of_same hinv (loopState_handler hctx) (fun hearly ↦ absurd hearly (by simp [*]))
          (fun hearly ↦ absurd hearly hinit) htext hconfigd hsame
  | writeSsid hcall hstate hrun =>
      obtain ⟨hram, _, err, hwrite, hpc⟩ := writeStep_cases hrun
      obtain ⟨rfl, _⟩ := writeCredential_atomic hwrite
      refine h.written hinv hstate hwrite (by rw [hram, hstate]) (by rw [hram]) (by rw [hram]) ?_
      simp [settled, hram, hstate, hpc]
  | writePassword hplace hrun =>
      obtain ⟨hram, _, err, hwrite, hpc⟩ := writeStep_cases hrun
      have hstate := h.inv.writing (.inl hplace)
      obtain ⟨rfl, _⟩ := writeCredential_atomic hwrite
      refine h.written hinv hstate hwrite (by rw [hram, hstate]) (by rw [hram]) (by rw [hram]) ?_
      simp [settled, hram, hstate, hpc, hplace]
  | writeContract hplace hrun =>
      obtain ⟨err, hwrite, hpc, _, hctx⟩ := writeContract_cases hrun
      have hstate := h.inv.writing (.inr hplace)
      obtain ⟨rfl, _⟩ := writeCredential_atomic hwrite
      rw [if_pos rfl] at hctx
      refine h.written hinv hstate hwrite (by rw [hctx]; exact hstate) (by rw [hctx])
        (by rw [hctx]) ?_
      simp [settled, hctx, hstate, hpc, hplace]
  | update hpc hctx => exact h.updated hinv hpc hctx

/-! ## Where the arrays come from -/

/-- A store that is not torn can be restored from. -/
theorem Untorn.restorable (h : Untorn store) : Restorable store :=
  h.imp_right fun ⟨text, _, hstores⟩ ↦ ⟨text, hstores⟩

/-- The arrays have no origin after boot. -/
theorem provisionInv_boot (hub : Hub) (env : Env) (store : Values) :
    ProvisionInv store [] (boot hub env store) :=
  { settledInv_boot hub env store with
    unwritten := fun _ ↦ rfl
    origin := by simp [boot] }

/-- A step that keeps the arrays and does not set `wifi_configd` keeps their origin. -/
theorem ProvisionInv.origin_of_same {trace : List (Taken (Node Values) Event)}
    {taken : Taken (Node Values) Event} (h : ProvisionInv store trace node)
    (htext : node'.ram.ctx.text = node.ram.ctx.text)
    (hconfigd : node'.ram.ctx.wifiConfigd = true → node.ram.ctx.wifiConfigd = true)
    (hset : node'.ram.ctx.wifiConfigd = true) :
    ∃ text, Origin store (taken :: trace) text ∧ SameStrings node'.ram.ctx.text text := by
  obtain ⟨text, horigin, hsame⟩ := h.origin (hconfigd hset)
  exact ⟨text, horigin.cons, htext ▸ hsame⟩

/-- The boot restores what one request has left in the store. -/
theorem ProvisionInv.origin_of_boot {trace : List (Taken (Node Values) Event)}
    {taken : Taken (Node Values) Event} (hstore : Untorn store)
    (h : ProvisionInv store trace node) (hstate : node.ram.ctx.loopState = .flashInit)
    (hcall : node.pc = .call) (hrun : callHandler atomicStore env node = some node')
    (hset : node'.ram.ctx.wifiConfigd = true) :
    ∃ text, Origin store (taken :: trace) text ∧ SameStrings node'.ram.ctx.text text := by
  obtain ⟨_, _, _, hread⟩ := callHandler_flashInit hstate hrun
  rw [h.unwritten hstate] at hread
  rcases hstore with hnone | ⟨text, hrequested, hstores⟩
  · have hkept := restoring_incomplete hnone hread
    simp [hkept, h.unrestored hstate hcall] at hset
  · exact ⟨text, .inr ⟨hrequested, hstores⟩, restoring_sameStrings hstores hread⟩

/-- A step leaves arrays of one origin. -/
theorem origin_step {trace : List (Taken (Node Values) Event)} {event : Event}
    (hstore : Untorn store) (h : ProvisionInv store trace node)
    (hstep : step atomicStore node event = some node') (hset : node'.ram.ctx.wifiConfigd = true) :
    ∃ text, Origin store (⟨node, event, node'⟩ :: trace) text ∧
      SameStrings node'.ram.ctx.text text := by
  cases step_cases hstep with
  | async _ hevent _ =>
      rcases async_credentials hevent with ⟨_, _, htext, hconfigd⟩ | ⟨text, _, haccepts, rfl⟩
      · exact h.origin_of_same htext (hconfigd ▸ id) hset
      · exact ⟨text, .inl ⟨_, List.mem_cons_self, haccepts⟩, fun _ ↦ rfl⟩
  | call hcall hstate hrun _ _ =>
      by_cases hinit : node.ram.ctx.loopState = .flashInit
      · exact h.origin_of_boot hstore hinit hcall hrun hset
      · obtain ⟨_, htext, hconfigd⟩ := callHandler_frame hinit hstate hrun
        exact h.origin_of_same htext (hconfigd ▸ id) hset
  | writeSsid _ _ hrun | writePassword _ hrun =>
      obtain ⟨hram, _⟩ := writeStep_cases hrun
      exact h.origin_of_same (by rw [hram]) (by rw [hram]; exact id) hset
  | writeContract _ hrun =>
      obtain ⟨err, _, _, _, hctx⟩ := writeContract_cases hrun
      exact h.origin_of_same (by rw [hctx]; split <;> rfl) (by rw [hctx]; split <;> exact id) hset
  | update _ hctx =>
      obtain ⟨htext, hconfigd⟩ := update_credentials hctx
      exact h.origin_of_same htext hconfigd hset

/-- A node that has not left its first state has not written to the store. -/
theorem unwritten_step {event : Event} (h : SettledInv node)
    (hstep : step atomicStore node event = some node')
    (hinit : node'.ram.ctx.loopState = .flashInit) :
    node.ram.ctx.loopState = .flashInit ∧ node'.store = node.store := by
  cases step_cases hstep with
  | async _ hevent _ =>
      rcases async_credentials hevent with ⟨hstate, _⟩ | ⟨text, _, _, rfl⟩
      · exact ⟨hstate.symm.trans hinit, rfl⟩
      · exact ⟨hinit, rfl⟩
  | call _ _ hrun _ hctx =>
      have hbefore := (loopState_handler hctx).symm.trans hinit
      obtain ⟨_, _, hsame, _⟩ := callHandler_flashInit hbefore hrun
      exact ⟨hbefore, hsame⟩
  | writeSsid _ hstate hrun =>
      obtain ⟨hram, _⟩ := writeStep_cases hrun
      simp [hram, hstate] at hinit
  | writePassword hplace hrun =>
      obtain ⟨hram, _⟩ := writeStep_cases hrun
      simp [hram, h.inv.writing (.inl hplace)] at hinit
  | writeContract hplace hrun =>
      obtain ⟨err, _, _, _, hctx⟩ := writeContract_cases hrun
      rw [hctx] at hinit
      split at hinit <;> simp [h.inv.writing (.inr hplace)] at hinit
  | update _ hctx => exact ⟨((update_origin h.inv.flags hctx).1 hinit).1, rfl⟩

/-- A step that keeps what is settled keeps the invariant. -/
theorem provisionInv_step {trace : List (Taken (Node Values) Event)} {event : Event}
    (hstore : Untorn store) (h : ProvisionInv store trace node)
    (hstep : step atomicStore node event = some node')
    (hkeeps : KeepsSettled ⟨node, event, node'⟩) :
    ProvisionInv store (⟨node, event, node'⟩ :: trace) node' := by
  have hsettled : SettledInv node' :=
    settledInv_step h.toSettledInv hstep hkeeps fun _ _ _ hinit ↦ by
      rw [h.unwritten hinit]
      exact hstore.restorable
  refine ⟨hsettled, fun hinit ↦ ?_, origin_step hstore h hstep⟩
  obtain ⟨hbefore, hsame⟩ := unwritten_step h.toSettledInv hstep hinit
  exact hsame.trans (h.unwritten hbefore)

/-- In a run in which no request changes a settled credential, the flash and the context agree in
`MQTT_INIT` and all later states. -/
theorem agrees_late {hub : Hub} {trace : List (Taken (Node Values) Event)}
    (hstore : Untorn store) (h : Run (step atomicStore) (boot hub env store) trace node)
    (hkeeps : ∀ taken ∈ trace, KeepsSettled taken)
    (hstate : LoopState.mqttInit.toNat ≤ node.ram.ctx.loopState.toNat) :
    Agrees store trace node := by
  have hprovision : ProvisionInv store trace node :=
    h.invariant_along (ProvisionInv store) (along_forall.mpr hkeeps)
      (provisionInv_boot hub env store) fun _ _ _ _ _ hinv hstep hcond ↦
        provisionInv_step hstore hinv hstep hcond
  obtain ⟨text, horigin, hsame⟩ :=
    hprovision.origin (hprovision.configd (Nat.le_of_succ_le hstate))
  refine ⟨text, horigin, fun field ↦ ?_, hsame⟩
  rw [hprovision.settled field (settled_late hstate field), hsame field]

/-- The empty store is not torn. -/
theorem untorn_empty : Untorn fun _ ↦ none :=
  .inl ⟨.ssid, rfl⟩

/-- A node that is provisioned once agrees with its flash. -/
theorem agrees_first_time : ∃ (trace : List (Taken (Node Values) Event)) (node : Node Values),
    Run (step atomicStore) freshNode trace node ∧ node.ram.ctx.loopState = .mqttInit ∧
      Agrees (fun _ ↦ none) trace node := by
  obtain ⟨trace, node, hrun, htest⟩ := exists_run_of_record (step atomicStore) freshNode
    provisionEvents (fun trace node ↦ node.ram.ctx.loopState == .mqttInit &&
      trace.all fun taken ↦ decide (KeepsSettled taken))
    (by decide +kernel)
  simp only [Bool.and_eq_true, beq_iff_eq, List.all_eq_true, decide_eq_true_eq] at htest
  exact ⟨trace, node, hrun, htest.1,
    agrees_late untorn_empty hrun htest.2 (by simp [htest.1])⟩

/-- A second request arrives between the first two writes. -/
def tornEvents : List Event :=
  turn ++ [.main quietEnv, .post homeRequest, .main quietEnv, .main quietEnv,
    .post (request "other" "public"), .main quietEnv, .main quietEnv, .main quietEnv]

/-- The flash then has the first credential of one request and the other two of the next. -/
theorem torn_by_second_request : ¬ ∀ (trace : List (Taken (Node Values) Event))
    (node : Node Values), Run (step atomicStore) freshNode trace node →
      LoopState.mqttInit.toNat ≤ node.ram.ctx.loopState.toNat →
      Agrees (fun _ ↦ none) trace node := by
  intro hclaim
  obtain ⟨trace, node, hrun, htest⟩ := exists_run_of_record (step atomicStore) freshNode tornEvents
    (fun _ node ↦ node.ram.ctx.loopState == .mqttInit &&
      node.store Credential.ssid.key.bytes != some (node.ram.ctx.text.str wifiSsid))
    (by decide +kernel)
  simp only [Bool.and_eq_true, beq_iff_eq, bne_iff_ne] at htest
  obtain ⟨text, _, hstores, hsame⟩ := hclaim trace node hrun (by simp [htest.1])
  refine htest.2 ?_
  rw [hstores .ssid]
  exact congrArg some (hsame .ssid).symm

end DirtieNode.Main
