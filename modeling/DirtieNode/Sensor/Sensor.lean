import DirtieNode.State.Ram

/-!
# The sensor and the clock

The handlers of `sensor.c`, and `ntp_sync_handler`.
-/

namespace DirtieNode.Sensor

open CString Logger State Util

/-- The 16-bit value of a read. A failed read is the 16-bit value of `-1`. -/
def seesawRead16 (read : I2cRead) : UInt16 :=
  if read.numBytesRead < 0 then 0xFFFF else read.high.toUInt16 <<< 8 ||| read.low.toUInt16

/-- `sensor_init`, which returns what `printf` returned when the baud rate is wrong. -/
def sensorInit (env : Env) : DtErr :=
  match env.baudWarning with
  | some printed => .ofInt printed
  | none => .ok

/-- `sense_init_handler`. -/
def senseInitHandler (env : Env) (ram : Ram) : DtErr × Ram :=
  let err := sensorInit env
  if err ≠ .ok then (err, ram)
  else (.ok, { ram with ctx := { ram.ctx with senseInitd := true } })

/-- `sense_listen_handler`, which has no `return`. -/
def senseListenHandler (env : Env) (ram : Ram) : DtErr × Ram :=
  let ctx := { ram.ctx with
    cprev := ram.ctx.capacitance
    capacitance := seesawRead16 env.capacitance
    tprev := ram.ctx.temperature
    temperature := seesawRead16 env.temperature }
  (.ofInt env.senseReturn, { ram with ctx := ctx })

end DirtieNode.Sensor

namespace DirtieNode.Util

open CString Logger State

/-- `ntp_sync_handler`. -/
def ntpSyncHandler (env : Env) (ram : Ram) : DtErr × Ram :=
  match ram.ctx.ntpState <|> ntpInit env.ntpCalloc env.udpPcb env.now with
  | none => (.malloc, ram.dlog env 0 .err (lit "ntp_init failed\n"))
  | some state =>
      let ntp := ntpPoll env.now env.resendAlarm env.dns state
      (.ok, { ram with ctx := { ram.ctx with
        ntpState := some ntp, ntpSyncd := ntp.synced || ram.ctx.ntpSyncd } })

end DirtieNode.Util
