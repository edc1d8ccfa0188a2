import DirtieNode.AccessPoint.Host
import DirtieNode.BasicIO.BasicIO
import DirtieNode.Connect.Connect
import DirtieNode.Flashmem.Handlers
import DirtieNode.Library.Transition
import DirtieNode.Sensor.Sensor

/-!
# The main loop

The node as a transition system. One turn of the loop of `main` is the call of a handler and the
call of `update_state`, with a step of its own for each `write` of `flash_write_handler`. Between
any two steps the lwIP callbacks, the timer and requests to dump the logs or to reset can happen.
-/

namespace DirtieNode.Main

open CString Flashmem Logger State Transition Util

/-- The place of the main program: before the call of a handler, between two writes of
`flash_write_handler`, or behind the call, with its result. -/
inductive Pc where
  | call
  | writePassword
  | writeContract
  | update (err : DtErr)
  deriving DecidableEq

/-- The whole node: memory, the flag `HOSTING`, the store and the place of the main program. -/
structure Node (σ : Type) where
  ram : Ram
  store : σ
  hosting : Bool := false
  pc : Pc := .call

/-- What can happen next. -/
inductive Event where
  /-- a step of the main program -/
  | main (env : Env)
  /-- the body of a provisioning request reaches `parse_wifi_credentials` -/
  | post (json : CStr)
  /-- `sample_rate_update` -/
  | tick
  | dumpRequest
  | resetRequest
  /-- a callback of the NTP client -/
  | ntp (e : NtpEvent)

/-- The event is not a step of the main program. -/
def Event.async : Event → Prop
  | .main _ => False
  | _ => True

variable {σ : Type}

/-- The handlers that touch only memory: `LOOP_STATE_CALLBACKS` without the first three. -/
def ramHandler (env : Env) (ram : Ram) : LoopState → Option (DtErr × Ram)
  | .mqttInit => some (Connect.mqttInitHandler env ram)
  | .senseInit => some (Sensor.senseInitHandler env ram)
  | .ntpSync => some (ntpSyncHandler env ram)
  | .mqttPublish => some (Connect.mqttPublishHandler env ram)
  | .mqttListen => some (Connect.mqttListenHandler ram)
  | .battListen => some (.ok, ram)
  | .senseListen => some (Sensor.senseListenHandler env ram)
  | .logdump => some (Connect.logdumpHandler env ram)
  | .throttle => some (.ok, ram)
  | _ => none

/-- The first write that fails ends `flash_write_handler`. -/
def writeStep (ops : StoreOps σ) (field : Credential) (next : Pc) (node : Node σ) :
    Option (Node σ) := do
  let (err, store) ← writeCredential ops field node.ram.ctx node.store
  pure { node with store := store, pc := if err = .ok then next else .update err }

/-- The last write, after which the flag is set. -/
def writeContract (ops : StoreOps σ) (node : Node σ) : Option (Node σ) := do
  let (err, store) ← writeCredential ops .contract node.ram.ctx node.store
  let ctx := if err = .ok then { node.ram.ctx with flashWritten := true } else node.ram.ctx
  pure { node with ram := { node.ram with ctx := ctx }, store := store, pc := .update err }

/-- The call through `LOOP_STATE_CALLBACKS`, up to the first write in `FLASH_WRITE`. -/
def callHandler (ops : StoreOps σ) (env : Env) (node : Node σ) : Option (Node σ) :=
  match node.ram.ctx.loopState with
  | .flashInit => do
      let (err, ctx, store) ← flashInitHandler ops env.zeroBuf node.ram.ctx node.store
      pure { node with ram := { node.ram with ctx := ctx }, store := store, pc := .update err }
  | .wifiConfig =>
      let (err, hosting) := AccessPoint.wifiConfigHandler env node.hosting
      some { node with hosting := hosting, pc := .update err }
  | .flashWrite => writeStep ops .ssid .writePassword node
  | state => do
      let (err, ram) ← ramHandler env node.ram state
      pure { node with ram := ram, pc := .update err }

/-- The test of the result in `main`. -/
def logError (env : Env) (err : DtErr) (ram : Ram) : Ram :=
  if err ≠ .ok then ram.dlog env 0 .err (ascii (toString err.code).toList ++ lit "\n") else ram

/-- The rest of a turn: an error is logged, `update_state` chooses the next handler, and the call
for the button and the LED is the one of `basicio_init_handler`. -/
def updateStep (env : Env) (err : DtErr) (node : Node σ) : Node σ :=
  { node with
    ram := BasicIO.basicioInitHandler (updateState env (logError env err node.ram)), pc := .call }

/-- A step of the main program. -/
def mainStep (ops : StoreOps σ) (env : Env) (node : Node σ) : Option (Node σ) :=
  match node.pc with
  | .call => callHandler ops env node
  | .writePassword => writeStep ops .password .writeContract node
  | .writeContract => writeContract ops node
  | .update err => some (updateStep env err node)

/-- `sample_rate_update`. -/
def sampleRateUpdate (ctx : AppCtx) : AppCtx :=
  if ctx.mqttInitd then { ctx with setPublish := true } else ctx

/-- What an event does to memory, unless it is a step of the main program. -/
def asyncStep (ram : Ram) : Event → Option Ram
  | .main _ => none
  | .post json => do
      let (_, ctx) ← AccessPoint.parseWifiCredentials (json.bytes ++ [0]) ram.ctx
      pure { ram with ctx := ctx }
  | .tick => some { ram with ctx := sampleRateUpdate ram.ctx }
  | .dumpRequest => some { ram with logs := { ram.logs with dumpLogs := true } }
  | .resetRequest => some { ram with ctx := { ram.ctx with reset := true } }
  | .ntp e => some { ram with ctx := { ram.ctx with ntpState := ram.ctx.ntpState.map e.apply } }

/-- The transition function of the node. -/
def step (ops : StoreOps σ) (node : Node σ) (event : Event) : Option (Node σ) :=
  match event with
  | .main env => mainStep ops env node
  | event => (asyncStep node.ram event).map fun ram ↦ { node with ram := ram }

/-- The node when `main` enters its loop: a zeroed context with `HUB_LOC` and two log messages. -/
def boot (hub : Hub) (env : Env) (store : σ) : Node σ where
  ram :=
    let ram : Ram := { ctx := { text := bootText hub } }
    (ram.dlog env 0 .info (lit "HUB_LOC set to " ++ hub.loc.bytes ++ lit "\n")).dlog env 1 .info
      (lit "CYW43 Initialized\n")
  store := store

/-! ## A node that works -/

/-- Nothing fails and nothing is logged. -/
def quietEnv : Env := { log := fun _ ↦ { mallocOk := false } }

/-- The `HUB_LOC` of the default build. -/
def defaultHub : Hub := ⟨.ofBytes (lit "192.168.0.114"), by decide⟩

/-- A node without credentials. -/
def freshNode : Node Values := boot defaultHub quietEnv fun _ ↦ none

/-- The call of a handler that does not write, and `update_state`. -/
def turn : List Event := [.main quietEnv, .main quietEnv]

/-- The body of a request with these credentials and an empty token. -/
def request (ssid password : String) (h : 0 ∉ lit ssid ++ lit password := by decide)
    (fits : (lit ssid ++ lit password).length < 2 ^ 29 := by decide) : CStr where
  bytes := lit "\x7b\"ssid\":\"" ++ lit ssid ++ lit "\",\"password\":\"" ++ lit password ++
    lit "\",\"token\":\"\"\x7d"
  nul_free := by
    simp only [List.mem_append, not_or] at h ⊢
    exact ⟨⟨⟨⟨by decide, h.1⟩, by decide⟩, h.2⟩, by decide⟩
  fits := by
    have hends : (lit "\x7b\"ssid\":\"").length + (lit "\",\"password\":\"").length +
        (lit "\",\"token\":\"\"\x7d").length < 64 := by decide
    simp only [List.length_append] at fits ⊢
    omega

/-- The first request. -/
def homeRequest : CStr := request "home" "secret"

/-- A response that `ntp_recv` accepts. -/
def validPacket : NtpPacket where
  addr := 0
  port := ntpPort
  totLen := ntpMsgLen
  mode := 4
  stratum := 1
  seconds := (0xE9, 0, 0, 0)

/-- A first request arrives, its credentials are written, and the loop enters `MQTT_INIT`. -/
def provisionEvents : List Event :=
  turn ++ [.main quietEnv, .post homeRequest, .main quietEnv] ++ turn ++ turn

/-- The rest of the way to `MQTT_PUBLISH`. -/
def connectEvents : List Event :=
  turn ++ turn ++ turn ++ [.ntp (.recv 0 0 validPacket)] ++ turn

end DirtieNode.Main
