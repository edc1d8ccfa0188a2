import DirtieNode.Main.Loop

/-!
# What a step can do

One lemma for each kind of step, with the new context written out. The invariants of the loop are
case analyses of these.
-/

namespace DirtieNode.Main

open CString Flashmem Logger State Transition Util

/-! ## Events between two steps -/

/-- A request changes the arrays and `wifi_configd`, or nothing. -/
theorem parse_cases {json : List UInt8} {ctx ctx' : AppCtx} {accepted : Bool}
    (h : AccessPoint.parseWifiCredentials json ctx = some (accepted, ctx')) :
    accepted = false ∧ ctx' = ctx ∨
      accepted = true ∧ ∃ text, ctx' = { ctx with text := text, wifiConfigd := true } := by
  unfold AccessPoint.parseWifiCredentials at h
  simp only [bind, pure, Option.bind_eq_some_iff] at h
  obtain ⟨ssidStart, _, pwStart, _, tknStart, _, h⟩ := h
  split at h
  · simp only [Option.bind_eq_some_iff] at h
    obtain ⟨ssidEnd, _, pwEnd, _, tknEnd, _, h⟩ := h
    split at h
    · split at h
      · simp only [Option.some.injEq, Prod.mk.injEq] at h
        exact .inl ⟨h.1.symm, h.2.symm⟩
      · simp only [Option.bind_eq_some_iff, Option.some.injEq, Prod.mk.injEq] at h
        obtain ⟨_, _, _, _, _, _, text, _, haccepted, hctx⟩ := h
        exact .inr ⟨haccepted.symm, text, hctx.symm⟩
    · simp only [Option.some.injEq, Prod.mk.injEq] at h
      exact .inl ⟨h.1.symm, h.2.symm⟩
  · simp only [Option.some.injEq, Prod.mk.injEq] at h
    exact .inl ⟨h.1.symm, h.2.symm⟩

/-- An event between two steps of the main program. -/
inductive AsyncChange (ram : Ram) : Ram → Prop
  | none : AsyncChange ram ram
  | accepted (text : CtxText) :
      AsyncChange ram { ram with ctx := { ram.ctx with text := text, wifiConfigd := true } }
  | tick (h : ram.ctx.mqttInitd) :
      AsyncChange ram { ram with ctx := { ram.ctx with setPublish := true } }
  | dump : AsyncChange ram { ram with logs := { ram.logs with dumpLogs := true } }
  | reset : AsyncChange ram { ram with ctx := { ram.ctx with reset := true } }
  | ntp (e : NtpEvent) :
      AsyncChange ram { ram with ctx := { ram.ctx with ntpState := ram.ctx.ntpState.map e.apply } }

/-- What each of the events between the steps of `main` changes. -/
theorem async_cases {ram ram' : Ram} {event : Event} (h : asyncStep ram event = some ram') :
    AsyncChange ram ram' := by
  cases event with
  | main env => simp [asyncStep] at h
  | post json =>
      simp only [asyncStep, bind, pure, Option.bind_eq_some_iff, Option.some.injEq] at h
      obtain ⟨⟨accepted, ctx⟩, hparse, rfl⟩ := h
      rcases parse_cases hparse with ⟨_, rfl⟩ | ⟨_, text, rfl⟩
      · exact .none
      · exact .accepted text
  | tick =>
      obtain rfl := Option.some.inj h
      unfold sampleRateUpdate
      split
      · rename_i hinit
        exact .tick hinit
      · exact .none
  | dumpRequest =>
      obtain rfl := Option.some.inj h
      exact .dump
  | resetRequest =>
      obtain rfl := Option.some.inj h
      exact .reset
  | ntp e =>
      obtain rfl := Option.some.inj h
      exact .ntp e

/-! ## Handlers -/

variable {σ : Type} {ops : StoreOps σ} {env : Env} {ram ram' : Ram} {err : DtErr}

/-- A call of `publish` is recorded, and changes nothing else. -/
theorem publish_cases (topic message : List UInt8) :
    (Connect.publish env topic message ram).2 =
      { ram with sent := ⟨topic, message,
          get ((message ++ List.replicate 128 0).take 128)⟩ :: ram.sent } := by
  unfold Connect.publish
  split <;> rfl

/-- `publish` keeps the context. -/
@[simp] theorem publish_ctx (topic message : List UInt8) :
    (Connect.publish env topic message ram).2.ctx = ram.ctx := by
  rw [publish_cases]

/-- `publish` keeps the logs. -/
@[simp] theorem publish_logs (topic message : List UInt8) :
    (Connect.publish env topic message ram).2.logs = ram.logs := by
  rw [publish_cases]

/-- `provision` keeps the context. -/
@[simp] theorem provision_ctx : (Connect.provision env ram).2.ctx = ram.ctx := by
  unfold Connect.provision
  split <;> simp

/-- The provisioning keeps the context. -/
theorem provisionToken_ctx : (Connect.provisionToken env ram).2.ctx = ram.ctx := by
  unfold Connect.provisionToken
  split <;> simp

/-- `breadcrumb` keeps the context. -/
@[simp] theorem breadcrumb_ctx : (Connect.breadcrumb env ram).2.ctx = ram.ctx := by
  unfold Connect.breadcrumb
  split <;> simp

/-- Dumping the logs changes the heap and what has been sent. -/
@[simp] theorem logdump_ctx : (Connect.logdump env ram).2.ctx = ram.ctx := by
  unfold Connect.logdump
  split
  · rfl
  · split
    · rfl
    · split
      · split <;> simp
      · rfl

/-- `logdump_handler` keeps the context. -/
@[simp] theorem logdumpHandler_ctx : (Connect.logdumpHandler env ram).2.ctx = ram.ctx := by
  unfold Connect.logdumpHandler
  split <;> simp

/-- `mqtt_init_handler` succeeds with a client, or leaves the flags alone. -/
theorem mqttInitHandler_ctx (h : Connect.mqttInitHandler env ram = (err, ram')) :
    (err = .ok ∧ ram.ctx.wifiConfigd = true ∧ ∃ addr client inpub,
        ram'.ctx = { ram.ctx with
          mqttClient := some ⟨addr, some client, inpub⟩, mqttInitd := true }) ∨
      (err ≠ .ok ∧ ∃ client, ram'.ctx = { ram.ctx with mqttClient := client }) := by
  have hone : DtErr.ofInt 1 ≠ .ok := by decide
  unfold Connect.mqttInitHandler at h
  split at h
  · obtain ⟨rfl, rfl⟩ := Prod.mk.inj h
    exact .inr ⟨hone, ram.ctx.mqttClient, rfl⟩
  · rename_i hconfigd
    dsimp only at h
    split at h
    · obtain ⟨rfl, rfl⟩ := Prod.mk.inj h
      exact .inr ⟨hone, ram.ctx.mqttClient, rfl⟩
    · split at h
      · obtain ⟨rfl, rfl⟩ := Prod.mk.inj h
        exact .inr ⟨by decide, none, rfl⟩
      · split at h
        · obtain ⟨rfl, rfl⟩ := Prod.mk.inj h
          exact .inr ⟨hone, some {}, rfl⟩
        · rename_i addr _
          split at h
          · obtain ⟨rfl, rfl⟩ := Prod.mk.inj h
            exact .inr ⟨hone, some ⟨addr, none, false⟩, rfl⟩
          · rename_i client _
            generalize hprov : Connect.provisionToken env _ = prov at h
            have hctx := (congrArg (fun result ↦ result.2.ctx) hprov).symm.trans provisionToken_ctx
            obtain ⟨perr, pram⟩ := prov
            dsimp only at h
            split at h
            · rename_i hfailed
              obtain ⟨rfl, rfl⟩ := Prod.mk.inj h
              exact .inr ⟨hfailed, _, hctx⟩
            · obtain ⟨rfl, rfl⟩ := Prod.mk.inj h
              have hset : ram.ctx.wifiConfigd = true := by simpa using hconfigd
              exact .inl ⟨rfl, hset, addr, client, env.mqttConnected, by rw [hctx]; rfl⟩

/-- `sense_init_handler` sets its flag, or fails and changes nothing. -/
theorem senseInitHandler_ctx (h : Sensor.senseInitHandler env ram = (err, ram')) :
    (err = .ok ∧ ram'.ctx = { ram.ctx with senseInitd := true }) ∨ (err ≠ .ok ∧ ram' = ram) := by
  unfold Sensor.senseInitHandler at h
  dsimp only at h
  split at h
  · rename_i hfailed
    obtain ⟨rfl, rfl⟩ := Prod.mk.inj h
    exact .inr ⟨hfailed, rfl⟩
  · obtain ⟨rfl, rfl⟩ := Prod.mk.inj h
    exact .inl ⟨rfl, rfl⟩

/-- `ntp_sync_handler` keeps the client it has, and sets its flag only when that is synchronised. -/
theorem ntpSyncHandler_ctx (h : ntpSyncHandler env ram = (err, ram')) :
    ram'.ctx = ram.ctx ∨
      ∃ ntp, ram'.ctx = { ram.ctx with
          ntpState := some ntp, ntpSyncd := ntp.synced || ram.ctx.ntpSyncd } ∧
        ∀ state, ram.ctx.ntpState = some state → ntp.synced = state.synced := by
  unfold ntpSyncHandler at h
  split at h
  · obtain ⟨rfl, rfl⟩ := Prod.mk.inj h
    exact .inl rfl
  · rename_i state hstate
    obtain ⟨rfl, rfl⟩ := Prod.mk.inj h
    refine .inr ⟨_, rfl, fun old hold ↦ ?_⟩
    rw [hold] at hstate
    obtain rfl : old = state := Option.some.inj hstate
    exact ntpPoll_synced _ _ _ _

/-- `flash_init_handler` fails, finds no credentials, or restores them. -/
theorem flashInitHandler_ctx {mallocOk : Bool} {ctx ctx' : AppCtx} {store store' : σ}
    (h : flashInitHandler ops mallocOk ctx store = some (err, ctx', store')) :
    ∃ text, err ≠ .ok ∧ ctx' = { ctx with text := text } ∨
      err = .ok ∧ ctx' = { ctx with text := text, flashInitd := true } ∨
      err = .ok ∧ ctx' = { ctx with
        text := text, wifiConfigd := true, flashInitd := true, flashWritten := true } := by
  rcases flashInitHandler_cases h with ⟨_, herr, rfl⟩ | ⟨_, hread⟩
  · exact ⟨_, .inl ⟨herr, rfl⟩⟩
  · cases hread with
    | unconfigured hssid =>
        obtain ⟨ssid, rfl⟩ := readCredential_ctx hssid
        exact ⟨ssid, .inr (.inl ⟨rfl, rfl⟩)⟩
    | noSsid hssid herr =>
        obtain ⟨ssid, rfl⟩ := readCredential_ctx hssid
        exact ⟨ssid, .inl ⟨herr, rfl⟩⟩
    | noPassword hssid hpassword herr =>
        obtain ⟨_, rfl⟩ := readCredential_ctx hssid
        obtain ⟨password, rfl⟩ := readCredential_ctx hpassword
        exact ⟨password, .inl ⟨herr, rfl⟩⟩
    | noContract hssid hpassword hcontract herr =>
        obtain ⟨_, rfl⟩ := readCredential_ctx hssid
        obtain ⟨_, rfl⟩ := readCredential_ctx hpassword
        obtain ⟨contract, rfl⟩ := readCredential_ctx hcontract
        exact ⟨contract, .inl ⟨herr, rfl⟩⟩
    | restored hssid hpassword hcontract =>
        obtain ⟨_, rfl⟩ := readCredential_ctx hssid
        obtain ⟨_, rfl⟩ := readCredential_ctx hpassword
        obtain ⟨contract, rfl⟩ := readCredential_ctx hcontract
        exact ⟨contract, .inr (.inr ⟨rfl, rfl⟩)⟩

/-- What the call of a handler other than `flash_write_handler` does to the context. -/
inductive HandlerChange (env : Env) (ctx : AppCtx) : DtErr → AppCtx → Prop
  | none (err : DtErr) (h : ctx.loopState ≠ .senseListen) : HandlerChange env ctx err ctx
  | unread (err : DtErr) (text : CtxText) (h : ctx.loopState = .flashInit) :
      HandlerChange env ctx err { ctx with text := text }
  | unconfigured (text : CtxText) (h : ctx.loopState = .flashInit) :
      HandlerChange env ctx .ok { ctx with text := text, flashInitd := true }
  | restored (text : CtxText) (h : ctx.loopState = .flashInit) :
      HandlerChange env ctx .ok { ctx with
        text := text, wifiConfigd := true, flashInitd := true, flashWritten := true }
  | unconnected (err : DtErr) (client : Option MqttClient) (h : ctx.loopState = .mqttInit) :
      HandlerChange env ctx err { ctx with mqttClient := client }
  | connected (addr client : Nat) (inpub : Bool) (h : ctx.loopState = .mqttInit)
      (hconfigd : ctx.wifiConfigd = true) :
      HandlerChange env ctx .ok { ctx with
        mqttClient := some ⟨addr, some client, inpub⟩, mqttInitd := true }
  | sensing (h : ctx.loopState = .senseInit) :
      HandlerChange env ctx .ok { ctx with senseInitd := true }
  | polled (err : DtErr) (ntp : Ntp) (h : ctx.loopState = .ntpSync)
      (hkeeps : ∀ state, ctx.ntpState = some state → ntp.synced = state.synced) :
      HandlerChange env ctx err { ctx with
        ntpState := some ntp, ntpSyncd := ntp.synced || ctx.ntpSyncd }
  | measured (err : DtErr) (h : ctx.loopState = .senseListen) :
      HandlerChange env ctx err { ctx with
        cprev := ctx.capacitance
        capacitance := Sensor.seesawRead16 env.capacitance
        tprev := ctx.temperature
        temperature := Sensor.seesawRead16 env.temperature }

/-- What a handler that touches only memory changes of the context. -/
theorem ramHandler_cases {state : LoopState} (hstate : ram.ctx.loopState = state)
    (h : ramHandler env ram state = some (err, ram')) :
    HandlerChange env ram.ctx err ram'.ctx := by
  cases state <;> simp only [ramHandler, Option.some.injEq, reduceCtorEq] at h
  case mqttInit =>
    rcases mqttInitHandler_ctx h with ⟨rfl, hconfigd, addr, client, inpub, hctx⟩ | ⟨_, client, hctx⟩
    · exact hctx ▸ .connected addr client inpub hstate hconfigd
    · exact hctx ▸ .unconnected err client hstate
  case senseInit =>
    rcases senseInitHandler_ctx h with ⟨rfl, hctx⟩ | ⟨_, rfl⟩
    · exact hctx ▸ .sensing hstate
    · exact .none err (by simp [hstate])
  case ntpSync =>
    rcases ntpSyncHandler_ctx h with hctx | ⟨ntp, hctx, hkeeps⟩
    · rw [hctx]
      exact .none err (by simp [hstate])
    · exact hctx ▸ .polled err ntp hstate hkeeps
  case senseListen =>
    obtain ⟨rfl, rfl⟩ := Prod.mk.inj h
    exact .measured _ hstate
  case mqttPublish =>
    have hctx : ram'.ctx = ram.ctx := by
      rw [← congrArg (fun result ↦ result.2.ctx) h]
      exact breadcrumb_ctx
    rw [hctx]
    exact .none err (by simp [hstate])
  case logdump =>
    have hctx : ram'.ctx = ram.ctx := by
      rw [← congrArg (fun result ↦ result.2.ctx) h]
      exact logdumpHandler_ctx
    rw [hctx]
    exact .none err (by simp [hstate])
  case mqttListen | battListen | throttle =>
    obtain ⟨rfl, rfl⟩ := Prod.mk.inj h
    exact .none _ (by simp [hstate])

variable {node node' : Node σ}

/-- What the call through `LOOP_STATE_CALLBACKS` runs. -/
inductive HandlerCall (ops : StoreOps σ) (env : Env) (node : Node σ) : Node σ → Prop
  | flashInit {err : DtErr} {ctx : AppCtx} {store : σ}
      (hstate : node.ram.ctx.loopState = .flashInit)
      (hrun : flashInitHandler ops env.zeroBuf node.ram.ctx node.store = some (err, ctx, store)) :
      HandlerCall ops env node
        { node with ram := { node.ram with ctx := ctx }, store := store, pc := .update err }
  | wifiConfig (err : DtErr) (hosting : Bool) (hstate : node.ram.ctx.loopState = .wifiConfig) :
      HandlerCall ops env node { node with hosting := hosting, pc := .update err }
  | flashWrite {after : Node σ} (hstate : node.ram.ctx.loopState = .flashWrite)
      (hrun : writeStep ops .ssid .writePassword node = some after) :
      HandlerCall ops env node after
  | ram {err : DtErr} {ram : Ram}
      (hrun : ramHandler env node.ram node.ram.ctx.loopState = some (err, ram)) :
      HandlerCall ops env node { node with ram := ram, pc := .update err }

/-- Each call of a handler is one of the four kinds. -/
theorem handlerCall (h : callHandler ops env node = some node') :
    HandlerCall ops env node node' := by
  unfold callHandler at h
  split at h
  · rename_i hinit
    simp only [bind, pure, Option.bind_eq_some_iff, Option.some.injEq] at h
    obtain ⟨⟨err, ctx, store⟩, hrun, rfl⟩ := h
    exact .flashInit hinit hrun
  · rename_i hconfig
    obtain rfl := Option.some.inj h
    exact .wifiConfig _ _ hconfig
  · rename_i hwrite
    exact .flashWrite hwrite h
  · simp only [bind, pure, Option.bind_eq_some_iff, Option.some.injEq] at h
    obtain ⟨⟨err, ram⟩, hrun, rfl⟩ := h
    exact .ram hrun

/-- Outside `FLASH_WRITE` a call runs its handler to the end. -/
theorem callHandler_cases (h : callHandler ops env node = some node')
    (hstate : node.ram.ctx.loopState ≠ .flashWrite) :
    ∃ err, node'.pc = .update err ∧ HandlerChange env node.ram.ctx err node'.ram.ctx := by
  cases handlerCall h with
  | @flashInit err ctx _ hinit hrun =>
      refine ⟨err, rfl, ?_⟩
      obtain ⟨text, ⟨_, hctx⟩ | ⟨rfl, hctx⟩ | ⟨rfl, hctx⟩⟩ := flashInitHandler_ctx hrun
      · exact hctx ▸ .unread err text hinit
      · exact hctx ▸ .unconfigured text hinit
      · exact hctx ▸ .restored text hinit
  | wifiConfig err _ hconfig => exact ⟨err, rfl, .none _ (by simp [hconfig])⟩
  | flashWrite hwrite _ => exact absurd hwrite hstate
  | ram hrun => exact ⟨_, rfl, ramHandler_cases rfl hrun⟩

/-- A write of `flash_write_handler` changes the store and the place of the program. -/
theorem writeStep_cases {field : Credential} {next : Pc}
    (h : writeStep ops field next node = some node') :
    node'.ram = node.ram ∧ node'.hosting = node.hosting ∧
      ∃ err, writeCredential ops field node.ram.ctx node.store = some (err, node'.store) ∧
        node'.pc = if err = .ok then next else .update err := by
  simp only [writeStep, bind, pure, Option.bind_eq_some_iff, Option.some.injEq] at h
  obtain ⟨⟨err, store⟩, hrun, rfl⟩ := h
  exact ⟨rfl, rfl, err, hrun, rfl⟩

/-- The last of the three writes sets the flag when it succeeds. -/
theorem writeContract_cases (h : writeContract ops node = some node') :
    ∃ err, writeCredential ops .contract node.ram.ctx node.store = some (err, node'.store) ∧
      node'.pc = .update err ∧ node'.ram.logs = node.ram.logs ∧
      node'.ram.ctx = if err = .ok then { node.ram.ctx with flashWritten := true }
        else node.ram.ctx := by
  simp only [writeContract, bind, pure, Option.bind_eq_some_iff, Option.some.injEq] at h
  obtain ⟨⟨err, store⟩, hrun, rfl⟩ := h
  exact ⟨err, hrun, rfl, rfl, rfl⟩

/-- Without events in between, the steps of the main program in `FLASH_WRITE` are a call of
`flash_write_handler`. -/
theorem flashWrite_steps {ctx : AppCtx} {store : σ} (env : Env) (hcall : node.pc = .call)
    (hstate : node.ram.ctx.loopState = .flashWrite)
    (h : flashWriteHandler ops node.ram.ctx node.store = some (err, ctx, store)) :
    ∃ trace, Run (step ops) node trace
        { node with ram := { node.ram with ctx := ctx }, store := store, pc := .update err } ∧
      ∀ taken ∈ trace, taken.event = .main env := by
  have hfirst : ∀ {err : DtErr} {store : σ},
      writeCredential ops .ssid node.ram.ctx node.store = some (err, store) →
      step ops node (.main env) = some { node with
        store := store, pc := if err = .ok then .writePassword else .update err } := by
    intro err store hrun
    simp [step, mainStep, hcall, callHandler, hstate, writeStep, hrun]
  simp only [flashWriteHandler, bind, Option.bind_eq_some_iff] at h
  obtain ⟨⟨ssidErr, ssidStore⟩, hssid, h⟩ := h
  replace hfirst := hfirst hssid
  by_cases hssidErr : ssidErr = .ok
  · rw [if_neg (by simpa using hssidErr), Option.bind_eq_some_iff] at h
    rw [if_pos hssidErr] at hfirst
    obtain ⟨⟨passwordErr, passwordStore⟩, hpassword, h⟩ := h
    have hsecond : step ops { node with store := ssidStore, pc := .writePassword } (.main env) =
        some { node with
          store := passwordStore
          pc := if passwordErr = .ok then .writeContract else .update passwordErr } := by
      simp [step, mainStep, writeStep, hpassword]
    by_cases hpasswordErr : passwordErr = .ok
    · rw [if_neg (by simpa using hpasswordErr), Option.bind_eq_some_iff] at h
      rw [if_pos hpasswordErr] at hsecond
      obtain ⟨⟨contractErr, contractStore⟩, hcontract, h⟩ := h
      refine ⟨_, .step (.step (.step .refl hfirst) hsecond)
        (show step ops _ (.main env) = some _ from ?_), by simp⟩
      by_cases hcontractErr : contractErr = .ok
      · rw [if_neg (by simpa using hcontractErr)] at h
        simp only [pure, Option.some.injEq, Prod.mk.injEq] at h
        obtain ⟨rfl, rfl, rfl⟩ := h
        simp [step, mainStep, writeContract, hcontract, hcontractErr]
      · rw [if_pos hcontractErr] at h
        simp only [pure, Option.some.injEq, Prod.mk.injEq] at h
        obtain ⟨rfl, rfl, rfl⟩ := h
        simp [step, mainStep, writeContract, hcontract, hcontractErr]
    · rw [if_pos hpasswordErr] at h
      rw [if_neg hpasswordErr] at hsecond
      simp only [pure, Option.some.injEq, Prod.mk.injEq] at h
      obtain ⟨rfl, rfl, rfl⟩ := h
      exact ⟨_, .step (.step .refl hfirst) hsecond, by simp⟩
  · rw [if_pos hssidErr] at h
    rw [if_neg hssidErr] at hfirst
    simp only [pure, Option.some.injEq, Prod.mk.injEq] at h
    obtain ⟨rfl, rfl, rfl⟩ := h
    exact ⟨_, .step .refl hfirst, by simp⟩

/-! ## `update_state` -/

/-- The place that the switch chooses, from the flags. -/
def switchTarget (ctx : AppCtx) : LoopState :=
  match ctx.loopState with
  | .flashInit =>
      if ctx.flashInitd then if ctx.wifiConfigd then .mqttInit else .wifiConfig else .flashInit
  | .wifiConfig => if ctx.wifiConfigd then .flashWrite else .wifiConfig
  | .flashWrite => if ctx.flashWritten then .mqttInit else .flashWrite
  | .mqttInit => if ctx.mqttInitd then .senseInit else .mqttInit
  | .senseInit => if ctx.senseInitd then .ntpSync else .senseInit
  | .ntpSync => if ctx.ntpSyncd then .mqttPublish else .ntpSync
  | .mqttPublish => .mqttListen
  | .mqttListen => .battListen
  | .battListen => .senseListen
  | .senseListen => .logdump
  | .logdump => .throttle
  | .throttle => .mqttListen
  | .loopStateCount => .loopStateCount

/-- The switch changes `loop_state` alone in the context. -/
theorem updateSwitch_ctx :
    (updateSwitch env ram).ctx = { ram.ctx with loopState := switchTarget ram.ctx } := by
  have hstay : ∀ state, ram.ctx.loopState = state →
      ram.ctx = { ram.ctx with loopState := state } := by
    rintro _ rfl
    rfl
  unfold updateSwitch switchTarget
  dsimp only
  cases hstate : ram.ctx.loopState with
  | flashInit =>
      dsimp only
      by_cases hinit : ram.ctx.flashInitd = true
      · rw [if_pos hinit, if_pos hinit]
        cases ram.ctx.wifiConfigd <;> rfl
      · rw [if_neg hinit, if_neg hinit]
        exact hstay _ hstate
  | wifiConfig | flashWrite | mqttInit | senseInit | ntpSync =>
      dsimp only
      split
      · rfl
      · exact hstay _ hstate
  | loopStateCount => exact hstay _ hstate
  | _ => rfl

/-- The three blocks behind the switch: a reset, a publish request, a dump request, or none of
them, in which case the place that the switch chose stands. -/
inductive UpdateChange (ctx : AppCtx) (target : LoopState) (dumpLogs : Bool) : AppCtx → Prop
  | reset (h : ctx.reset = true) :
      UpdateChange ctx target dumpLogs { ctx with
        wifiConfigd := false, mqttInitd := false, ntpSyncd := false, loopState := .wifiConfig,
        reset := false }
  | publish (h : ctx.reset = false) (hready : ctx.ready = true) (hpublish : ctx.setPublish = true)
      (hdump : dumpLogs = false) :
      UpdateChange ctx target dumpLogs { ctx with loopState := .mqttPublish, setPublish := false }
  | dump (h : ctx.reset = false) (hready : ctx.ready = true) (hdump : dumpLogs = true) :
      UpdateChange ctx target dumpLogs { ctx with loopState := .logdump, setPublish := false }
  | switch (h : ctx.reset = false)
      (hidle : ctx.ready = false ∨ ctx.setPublish = false ∧ dumpLogs = false) :
      UpdateChange ctx target dumpLogs { ctx with loopState := target }

/-- The three blocks behind the switch leave its state or put their own in its place. -/
theorem updateBlocks_cases (ram : Ram) :
    UpdateChange ram.ctx ram.ctx.loopState ram.logs.dumpLogs
      (updateDump (updatePublish (updateReset ram))).ctx := by
  cases hreset : ram.ctx.reset with
  | true =>
      -- the reset clears the flags that the other two blocks ask for
      have hctx : (updateDump (updatePublish (updateReset ram))).ctx = { ram.ctx with
          wifiConfigd := false, mqttInitd := false, ntpSyncd := false, loopState := .wifiConfig,
          reset := false } := by
        simp [updateReset, hreset, updatePublish, updateDump, AppCtx.ready]
      exact hctx ▸ .reset hreset
  | false =>
      rw [updateReset_idle hreset]
      cases hready : ram.ctx.ready with
      | false =>
          rw [updatePublish_idle (by rw [hready, Bool.and_false]),
            updateDump_idle (by rw [hready, Bool.and_false])]
          exact .switch hreset (.inl hready)
      | true =>
          cases hpublish : ram.ctx.setPublish with
          | false =>
              rw [updatePublish_idle (by rw [hpublish, Bool.false_and])]
              cases hdump : ram.logs.dumpLogs with
              | false =>
                  rw [updateDump_idle (by rw [hdump, Bool.false_and])]
                  exact .switch hreset (.inr ⟨hpublish, rfl⟩)
              | true =>
                  have hctx : (updateDump ram).ctx =
                      { ram.ctx with loopState := .logdump, setPublish := false } := by
                    rw [updateDump, hdump, hready, ← hpublish]
                    rfl
                  exact hctx ▸ .dump hreset hready rfl
          | true =>
              have hrun : updatePublish ram = { ram with
                  ctx := { ram.ctx with loopState := .mqttPublish, setPublish := false } } := by
                rw [updatePublish, hpublish, hready]
                rfl
              rw [hrun]
              cases hdump : ram.logs.dumpLogs with
              | false =>
                  rw [updateDump_idle (by dsimp only; rw [hdump, Bool.false_and])]
                  exact .publish hreset hready hpublish rfl
              | true =>
                  have hkept : { ram.ctx with
                      loopState := .mqttPublish
                      setPublish := false : AppCtx }.ready = true := hready
                  rw [updateDump, hkept]
                  dsimp only
                  rw [hdump]
                  exact .dump hreset hready rfl

/-- What `update_state` does to the context. -/
theorem updateState_cases (env : Env) (ram : Ram) :
    UpdateChange ram.ctx (switchTarget ram.ctx) (updateSwitch env ram).logs.dumpLogs
      (updateState env ram).ctx := by
  have hctx : (updateSwitch env ram).ctx = { ram.ctx with loopState := switchTarget ram.ctx } :=
    updateSwitch_ctx
  have hblocks := updateBlocks_cases (updateSwitch env ram)
  rw [hctx] at hblocks
  unfold updateState
  generalize (updateDump (updatePublish (updateReset (updateSwitch env ram)))).ctx = ctx
    at hblocks ⊢
  cases hblocks with
  | reset h => exact .reset h
  | publish h hready hpublish hdump => exact .publish h hready hpublish hdump
  | dump h hready hdump => exact .dump h hready hdump
  | switch h hidle => exact .switch h hidle

/-- The dump flag that the dump block of `update_state` sees. -/
def dumpFlag (env : Env) (err : DtErr) (ram : Ram) : Bool :=
  (updateSwitch env (logError env err ram)).logs.dumpLogs

/-- The message about a failed handler keeps the context. -/
theorem logError_ctx (env : Env) (err : DtErr) (ram : Ram) :
    (logError env err ram).ctx = ram.ctx := by
  unfold logError
  split <;> rfl

/-- A turn ends with a reset, a request that is taken, or the next state of the switch. -/
theorem updateStep_cases (env : Env) (err : DtErr) (node : Node σ) :
    UpdateChange node.ram.ctx (switchTarget node.ram.ctx) (dumpFlag env err node.ram)
      (updateStep env err node).ram.ctx := by
  have hcases := updateState_cases env (logError env err node.ram)
  rwa [logError_ctx] at hcases

/-! ## The node -/

/-- The steps of the node: an event between two steps, the call of a handler, one of the three
writes, or `update_state`. -/
inductive StepChange (ops : StoreOps σ) (node : Node σ) : Event → Node σ → Prop
  | async {event : Event} {ram : Ram} (hasync : event.async)
      (hevent : asyncStep node.ram event = some ram) (hram : AsyncChange node.ram ram) :
      StepChange ops node event { node with ram := ram }
  | call {env : Env} {err : DtErr} {node' : Node σ} (hcall : node.pc = .call)
      (hstate : node.ram.ctx.loopState ≠ .flashWrite)
      (hrun : callHandler ops env node = some node') (hpc : node'.pc = .update err)
      (hctx : HandlerChange env node.ram.ctx err node'.ram.ctx) :
      StepChange ops node (.main env) node'
  | writeSsid {env : Env} {node' : Node σ} (hcall : node.pc = .call)
      (hstate : node.ram.ctx.loopState = .flashWrite)
      (hrun : writeStep ops .ssid .writePassword node = some node') :
      StepChange ops node (.main env) node'
  | writePassword {env : Env} {node' : Node σ} (hpc : node.pc = .writePassword)
      (hrun : writeStep ops .password .writeContract node = some node') :
      StepChange ops node (.main env) node'
  | writeContract {env : Env} {node' : Node σ} (hpc : node.pc = .writeContract)
      (hrun : writeContract ops node = some node') :
      StepChange ops node (.main env) node'
  | update {env : Env} {err : DtErr} (hpc : node.pc = .update err)
      (hctx : UpdateChange node.ram.ctx (switchTarget node.ram.ctx) (dumpFlag env err node.ram)
        (updateStep env err node).ram.ctx) :
      StepChange ops node (.main env) (updateStep env err node)

/-- Every step of the node is one of these kinds. -/
theorem step_cases {event : Event} (h : step ops node event = some node') :
    StepChange ops node event node' := by
  have hbetween : ∀ {event : Event}, event.async →
      (asyncStep node.ram event).map (fun ram ↦ { node with ram := ram }) = some node' →
      StepChange ops node event node' := by
    intro event hasync h
    obtain ⟨ram, hram, rfl⟩ := Option.map_eq_some_iff.mp h
    exact .async hasync hram (async_cases hram)
  cases event with
  | main env =>
      replace h : mainStep ops env node = some node' := h
      unfold mainStep at h
      split at h
      · rename_i hcall
        by_cases hstate : node.ram.ctx.loopState = .flashWrite
        · exact .writeSsid hcall hstate (by rw [← h, callHandler, hstate])
        · obtain ⟨err, hpc, hctx⟩ := callHandler_cases h hstate
          exact .call hcall hstate h hpc hctx
      · rename_i hpc
        exact .writePassword hpc h
      · rename_i hpc
        exact .writeContract hpc h
      · rename_i err hpc
        obtain rfl := Option.some.inj h
        exact .update hpc (updateStep_cases env err node)
  | post json => exact hbetween trivial h
  | tick => exact hbetween trivial h
  | dumpRequest => exact hbetween trivial h
  | resetRequest => exact hbetween trivial h
  | ntp e => exact hbetween trivial h

end DirtieNode.Main
