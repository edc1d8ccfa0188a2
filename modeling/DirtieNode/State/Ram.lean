import DirtieNode.Logger.Logger
import DirtieNode.State.AppCtx

/-!
# Memory and surroundings of a handler

`Ram` is what the handlers work on, and `Env` what the calls out of the program return in one step
of the main loop. `updateState` is the state machine of `state.c`.
-/

namespace DirtieNode.State

open CString Logger Util

/-- A call of `publish`: its arguments, and the bytes that `mqtt_publish` gets, unless their copy
has no terminator. -/
structure Publication where
  topic : List UInt8
  message : List UInt8
  payload : Option (List UInt8)
  deriving DecidableEq

/-- The context, the logs, and the calls of `publish` so far. -/
structure Ram where
  ctx : AppCtx
  logs : Logs := {}
  sent : List Publication := []

/-- What an I2C read returns, and the two bytes it leaves in the zeroed buffer. -/
structure I2cRead where
  numBytesRead : Int := 2
  high : UInt8 := 0
  low : UInt8 := 0
  deriving DecidableEq

/-- The outcomes of the external calls in a step. The defaults are those of a working node. -/
structure Env where
  /-- the calls of `dlog`, in order -/
  log : Nat → LogEnv := fun _ ↦ {}
  mac : List UInt8 := [0, 0, 0, 0, 0, 0]
  /-- `malloc` in `initialize_flash` -/
  zeroBuf : Bool := true
  /-- `calloc` and `tcp_server_open` in `host_provisioning_ap` -/
  serverState : Bool := true
  serverOpen : Bool := true
  /-- the calls of `mqtt_init_handler` -/
  wifiJoined : Bool := true
  mqttState : Bool := true
  hubAddr : Option Nat := some 0
  mqttClient : Option Nat := some 0
  mqttConnected : Bool := true
  /-- `malloc` for a payload, and the result of `mqtt_publish` -/
  payload : Bool := true
  published : Bool := true
  /-- what `printf` returns for a wrong baud rate -/
  baudWarning : Option Int := none
  /-- the calls of `ntp_sync_handler` -/
  ntpCalloc : Bool := true
  udpPcb : Bool := true
  now : Nat := 0
  resendAlarm : Int := 1
  dns : DnsResult := .inProgress
  /-- the two reads of `sense_listen_handler`, and what is in its result register -/
  capacitance : I2cRead := {}
  temperature : I2cRead := {}
  senseReturn : Int := 0
  /-- `calloc` and `b64_encode` in `logdump`, its clock, and what its uninitialised pointers hold -/
  logarray : Bool := true
  b64 : Nat → Bool := fun _ ↦ true
  nowMs : Nat := 0
  hwnow : Nat := 0
  strayPayload : Option BufId := none
  strayLogarray : Option BufId := none
  /-- whether the button is pressed at the end of the turn -/
  pressed : Bool := false

/-- The `k`-th call of `dlog` in a step, whose result no caller looks at. -/
def Ram.dlog (ram : Ram) (env : Env) (k : Nat) (lvl : LogLvl) (mesg : List UInt8) : Ram :=
  { ram with logs := (Logger.dlog (env.log k) lvl mesg ram.logs).2 }

@[simp] theorem Ram.dlog_ctx (ram : Ram) (env : Env) (k : Nat) (lvl : LogLvl) (mesg : List UInt8) :
    (ram.dlog env k lvl mesg).ctx = ram.ctx := rfl

@[simp] theorem Ram.dlog_sent (ram : Ram) (env : Env) (k : Nat) (lvl : LogLvl)
    (mesg : List UInt8) : (ram.dlog env k lvl mesg).sent = ram.sent := rfl

/-! ## `update_state` -/

/-- The `switch` of `update_state`. The last case cannot be reached from the loop. -/
def updateSwitch (env : Env) (ram : Ram) : Ram :=
  let ctx := ram.ctx
  let goto (state : LoopState) : Ram := { ram with ctx := { ctx with loopState := state } }
  match ctx.loopState with
  | .flashInit =>
      if ctx.flashInitd then if ctx.wifiConfigd then goto .mqttInit else goto .wifiConfig
      else ram
  | .wifiConfig => if ctx.wifiConfigd then goto .flashWrite else ram
  | .flashWrite => if ctx.flashWritten then goto .mqttInit else ram
  | .mqttInit => if ctx.mqttInitd then goto .senseInit else ram
  | .senseInit => if ctx.senseInitd then goto .ntpSync else ram
  | .ntpSync => if ctx.ntpSyncd then goto .mqttPublish else ram
  | .mqttPublish => goto .mqttListen
  | .mqttListen => goto .battListen
  | .battListen => goto .senseListen
  | .senseListen => goto .logdump
  | .logdump => { goto .throttle with logs := freeLogs ram.logs }
  | .throttle => goto .mqttListen
  | .loopStateCount =>
      ram.dlog env 1 .err (lit "Invalid state: " ++ decimal ctx.loopState.toNat ++ lit "\n")

/-- The flags that the publish and the dump block of `update_state` ask for. -/
def AppCtx.ready (ctx : AppCtx) : Bool :=
  ctx.wifiConfigd && ctx.senseInitd && ctx.mqttInitd && ctx.ntpSyncd

/-- A reset takes the node back to `WIFI_CONFIG`. -/
def updateReset (ram : Ram) : Ram :=
  if ram.ctx.reset then
    { ram with ctx := { ram.ctx with
        wifiConfigd := false, mqttInitd := false, ntpSyncd := false, loopState := .wifiConfig,
        reset := false } }
  else ram

/-- A publish request takes a node that is ready to `MQTT_PUBLISH`. -/
def updatePublish (ram : Ram) : Ram :=
  if ram.ctx.setPublish && ram.ctx.ready then
    { ram with ctx := { ram.ctx with loopState := .mqttPublish, setPublish := false } }
  else ram

/-- A dump request takes a node that is ready to `LOGDUMP`. -/
def updateDump (ram : Ram) : Ram :=
  if ram.logs.dumpLogs && ram.ctx.ready then
    { ram with
      ctx := { ram.ctx with loopState := .logdump }
      logs := { ram.logs with dumpLogs := false } }
  else ram

section Blocks

variable {ram : Ram}

/-- Without a reset, its block does nothing. -/
theorem updateReset_idle (h : ram.ctx.reset = false) : updateReset ram = ram :=
  if_neg (by simp [h])

/-- Without a request or before all flags are set, the publish block does nothing. -/
theorem updatePublish_idle (h : (ram.ctx.setPublish && ram.ctx.ready) = false) :
    updatePublish ram = ram :=
  if_neg (by simp [h])

/-- Without a request or before all flags are set, the dump block does nothing. -/
theorem updateDump_idle (h : (ram.logs.dumpLogs && ram.ctx.ready) = false) :
    updateDump ram = ram :=
  if_neg (by simp [h])

end Blocks

/-- `update_state`: the switch, and then the three blocks in order. -/
def updateState (env : Env) (ram : Ram) : Ram :=
  updateDump (updatePublish (updateReset (updateSwitch env ram)))

end DirtieNode.State
