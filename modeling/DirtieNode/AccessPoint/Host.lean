import DirtieNode.Library.Search
import DirtieNode.State.Ram

/-!
# Provisioning

`parse_wifi_credentials` on the body of a request, and `wifi_config_handler`. The three strings are
copied into the block of arrays, where a string of 64 bytes puts its terminator into the next one.
-/

namespace DirtieNode.AccessPoint

open CString State

/-- `ssid_query`. -/
def ssidQuery : List UInt8 := lit "\"ssid\":\""

/-- `pw_query`. -/
def pwQuery : List UInt8 := lit "\"password\":\""

/-- `tkn_query`. -/
def tknQuery : List UInt8 := lit "\"token\":\""

/-- The double quote. -/
def quote : UInt8 := 34

/-- Copy a stretch of the body into the arrays and terminate it. -/
def copyField (bytes : List UInt8) (offset : Nat) (json : List UInt8) (start len : Nat) :
    Option (List UInt8) := do
  let chunk ← load json start len
  let bytes ← memcpy bytes offset chunk
  memcpy bytes (offset + len) [0]

/-- `parse_wifi_credentials`. -/
def parseWifiCredentials (json : List UInt8) (ctx : AppCtx) : Option (Bool × AppCtx) := do
  let ssidStart ← strstr json ssidQuery
  let pwStart ← strstr json pwQuery
  let tknStart ← strstr json tknQuery
  match ssidStart, pwStart, tknStart with
  | some ssidStart, some pwStart, some tknStart =>
      let ssidStart := ssidStart + ssidQuery.length
      let pwStart := pwStart + pwQuery.length
      let tknStart := tknStart + tknQuery.length
      let ssidEnd ← strchr (json.drop ssidStart) quote
      let pwEnd ← strchr (json.drop pwStart) quote
      let tknEnd ← strchr (json.drop tknStart) quote
      match ssidEnd, pwEnd, tknEnd with
      | some ssidLen, some pwLen, some tknLen =>
          if ssidLen > 64 ∨ pwLen > 64 ∨ tknLen > 64 then pure (false, ctx)
          else
            let bytes ← copyField ctx.text.bytes wifiSsid json ssidStart ssidLen
            let bytes ← copyField bytes wifiPass json pwStart pwLen
            let bytes ← copyField bytes prvToken json tknStart tknLen
            let text ← CtxText.ofBytes bytes
            pure (true, { ctx with text := text, wifiConfigd := true })
      | _, _, _ => pure (false, ctx)
  | _, _, _ => pure (false, ctx)

/-- `host_provisioning_ap`, with its effect on `HOSTING`. -/
def hostProvisioningAp (env : Env) (hosting : Bool) : DtErr × Bool :=
  if !env.serverState then (.malloc, hosting)
  else if !env.serverOpen then (.openserver, hosting)
  else (.ok, true)

/-- `wifi_config_handler`. -/
def wifiConfigHandler (env : Env) (hosting : Bool) : DtErr × Bool :=
  if !hosting then hostProvisioningAp env hosting else (.ok, hosting)

end DirtieNode.AccessPoint
