import DirtieNode.Connect.B64
import DirtieNode.State.Ram

/-!
# Publishing

The handlers of `connect.c`. The messages are built as the source builds them, with the sizes it
passes to `malloc` and `snprintf`.
-/

namespace DirtieNode.Connect

open CString Logger State Util

/-- The topic of `breadcrumb`. -/
def topicBreadcrumb : List UInt8 := lit "dirtie-breadcrumb"

/-- The topic of `logdump`. -/
def topicLogdump : List UInt8 := lit "dirtie-logdump"

/-- The topic of `provision`. -/
def topicProvision : List UInt8 := lit "dirtie-provision"

/-- `publish`: `strncpy` into 128 bytes, of which `mqtt_publish` gets the string. -/
def publish (env : Env) (topic message : List UInt8) (ram : Ram) : DtErr × Ram :=
  let msgbuf := (message ++ List.replicate 128 0).take 128
  let ram := { ram with sent := ⟨topic, message, get msgbuf⟩ :: ram.sent }
  if env.published then (.ok, ram) else (.lwiperr, ram)

/-- The MAC address in the templates. -/
def macAddr (mac : List UInt8) : List UInt8 :=
  lit ":" |>.intercalate (mac.map hexByte)

/-- The start of the templates, up to the end of the contract. -/
def templateHead (env : Env) (token : List UInt8) : List UInt8 :=
  lit "\x7b\"macAddr\":\"" ++ macAddr env.mac ++ lit "\",\"contract\":\"" ++ token ++ lit "\""

/-- `provision`. The size in `snprintf` counts the terminator. -/
def provision (env : Env) (ram : Ram) : DtErr × Ram :=
  if !env.payload then (.malloc, ram)
  else
    let token := ram.ctx.text.str prvToken
    let size := 45 + token.length
    let payload := (templateHead env token ++ lit "\x7d").take (size - 1)
    publish env topicProvision payload ram

/-- The use of `provision` in `mqtt_init_handler`: there is nothing to do without a token. -/
def provisionToken (env : Env) (ram : Ram) : DtErr × Ram :=
  if ram.ctx.text.str prvToken ≠ [] then provision env ram else (.ok, ram)

/-- The expansion of the template of `breadcrumb`. -/
def breadcrumbText (env : Env) (token : List UInt8) (capacitance temperature : UInt16) :
    List UInt8 :=
  templateHead env token ++ lit ",\"capacitance\":\"" ++ decimal capacitance.toNat ++
    lit "\",\"temperature\":\"" ++ decimal temperature.toNat ++ lit "\"\x7d"

/-- The message of `breadcrumb`. The size in `snprintf` counts the terminator, and `len` does
not. -/
def breadcrumbPayload (env : Env) (token : List UInt8) (capacitance temperature : UInt16) :
    List UInt8 :=
  let text := breadcrumbText env token capacitance temperature
  let len := text.length
  text.take (len - 1)

/-- `breadcrumb`. -/
def breadcrumb (env : Env) (ram : Ram) : DtErr × Ram :=
  if !env.payload then (.malloc, ram)
  else
    publish env topicBreadcrumb (breadcrumbPayload env (ram.ctx.text.str prvToken)
      ram.ctx.capacitance ram.ctx.temperature) ram

/-- The text of a log buffer. -/
def logText (heap : Heap) (buf : BufId) : List UInt8 :=
  (heap.bufs.getD buf []).takeWhile (· != 0)

/-- The loop of `logdump` from slot `i` on: it stops at the first free slot, and fails with the
encoding of a log. The timestamps are changed in the log buffers. -/
def logArray (env : Env) (now hwnow : Nat) :
    Nat → List (Option BufId) → Heap → List UInt8 → DtErr × Heap × List UInt8
  | _, [], heap, text => (.ok, heap, text)
  | _, none :: _, heap, text => (.ok, heap, text)
  | i, some buf :: rest, heap, text =>
      let heap := { heap with bufs := heap.bufs.modify buf (logTransformTs · now hwnow) }
      let text := (if i > 0 then text ++ lit "," else text) ++ lit "\""
      if !env.b64 i then (.malloc, heap, text)
      else
        logArray env now hwnow (i + 1) rest heap (text ++ b64Encode (logText heap buf) ++ lit "\"")

/-- `logdump`. Its cleanup frees `payload` before it has a value, and `logarray` too when the epoch
is missing. -/
def logdump (env : Env) (ram : Ram) : DtErr × Ram :=
  let cleanup (err : DtErr) (heap : Heap) (logarray payload : Option BufId) : DtErr × Ram :=
    (err, { ram with logs := { ram.logs with heap := (heap.free logarray).free payload } })
  match getCurrentEpoch env.nowMs ram.ctx.ntpState with
  | (err, none) => cleanup err ram.logs.heap env.strayLogarray env.strayPayload
  | (_, some now) =>
      if !env.logarray then cleanup .malloc ram.logs.heap none env.strayPayload
      else
        match logArray env now env.hwnow 0 ram.logs.logdump ram.logs.heap (lit "[") with
        | (.ok, heap, text) =>
            if !env.payload then cleanup .malloc heap none none
            else
              let payload := templateHead env (ram.ctx.text.str prvToken) ++ lit ",\"logdump\":" ++
                text ++ lit "]\x7d"
              let logs := freeLogs { ram.logs with heap := heap }
              publish env topicLogdump payload { ram with logs := logs }
        | (err, heap, _) => cleanup err heap none env.strayPayload

/-! ## Handlers -/

/-- `mqtt_init_handler`. A failing `calloc` of the client is a failure of the handler. -/
def mqttInitHandler (env : Env) (ram : Ram) : DtErr × Ram :=
  if !ram.ctx.wifiConfigd then
    (.ofInt 1, ram.dlog env 0 .info (lit "wifi credentials not yet configured\n"))
  else
    let ram := ram.dlog env 0 .info (lit "connecting to " ++ ram.ctx.text.str wifiSsid ++ lit "\n")
    if !env.wifiJoined then (.ofInt 1, ram.dlog env 1 .info (lit "failed to connect.\n"))
    else
      let ram := ram.dlog env 1 .info (lit "Connected.\n")
      if !env.mqttState then (.malloc, { ram with ctx := { ram.ctx with mqttClient := none } })
      else
        match env.hubAddr with
        | none =>
            let ram := { ram with ctx := { ram.ctx with mqttClient := some {} } }
            (.ofInt 1, ram.dlog env 2 .info
              (lit "Invalid IP String " ++ ram.ctx.text.str hubLoc ++ lit ", exiting\n"))
        | some addr =>
            match env.mqttClient with
            | none =>
                let ram := { ram with
                  ctx := { ram.ctx with mqttClient := some ⟨addr, none, false⟩ } }
                (.ofInt 1, ram.dlog env 2 .info (lit "Failed to create MQTT client\n"))
            | some client =>
                -- the result of `mqtt_connect` decides about the callbacks only
                let state : MqttClient := ⟨addr, some client, env.mqttConnected⟩
                let ram := { ram with ctx := { ram.ctx with mqttClient := some state } }
                let (err, ram) := provisionToken env ram
                if err ≠ .ok then (err, ram.dlog env 2 .info (lit "Failed to provision device\n"))
                else (.ok, { ram with ctx := { ram.ctx with mqttInitd := true } })

/-- `mqtt_publish_handler`. -/
def mqttPublishHandler (env : Env) (ram : Ram) : DtErr × Ram :=
  breadcrumb env ram

/-- `logdump_handler`. -/
def logdumpHandler (env : Env) (ram : Ram) : DtErr × Ram :=
  match ram.logs.logdump with
  | some _ :: _ => logdump env ram
  | _ => (.ok, ram)

/-- `mqtt_listen_handler`. -/
def mqttListenHandler (ram : Ram) : DtErr × Ram :=
  (.ok, ram)

end DirtieNode.Connect
