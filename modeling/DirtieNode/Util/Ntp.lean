import Mathlib.Algebra.Group.Nat.Defs
import DirtieNode.DtErr

/-!
# The NTP client

The state of `util.c` and the steps that change it: the poll of the main loop and the callbacks
that lwIP and the alarm pool run. Times are in microseconds since boot unless their name says ms.
-/

namespace DirtieNode.Util

/-- `NTP_MSG_LEN`. -/
def ntpMsgLen : Nat := 48

/-- `NTP_PORT`. -/
def ntpPort : Nat := 123

/-- `NTP_DELTA`: the seconds between 1900 and 1970. -/
def ntpDelta : Nat := 2208988800

/-- `NTP_POLL_MS`. -/
def ntpPollMs : Nat := 30 * 1000

/-- `NTP_T`, without the control block that `ntp_init` makes and nothing changes. -/
structure Ntp where
  serverAddress : Nat := 0
  dnsRequestSent : Bool := false
  nextPoll : Nat := 0
  resendAlarm : Int := 0
  epochSecs : Nat := 0
  hwRefMs : Nat := 0
  synced : Bool := false
  deriving DecidableEq

/-- `ntp_init`, with the outcome of its allocations. -/
def ntpInit (callocOk pcbOk : Bool) (now : Nat) : Option Ntp :=
  if callocOk && pcbOk then some { nextPoll := now } else none

/-- `ntp_sync_done`. Cancelling the alarm leaves only its number to forget. -/
def ntpSyncDone (now : Nat) (state : Ntp) : Ntp :=
  let state := if state.resendAlarm > 0 then { state with resendAlarm := 0 } else state
  { state with dnsRequestSent := false, nextPoll := now + ntpPollMs * 1000 }

/-- What `dns_gethostbyname` returns. A cached address is stored before it returns. -/
inductive DnsResult where
  | ok (address : Nat)
  | inProgress
  | failed

/-- `ntp_poll`, with the number of the alarm that it arms. The request it may send has no effect
here. -/
def ntpPoll (now : Nat) (alarm : Int) (dns : DnsResult) (state : Ntp) : Ntp :=
  if state.nextPoll < now ∧ !state.dnsRequestSent then
    let state := { state with resendAlarm := alarm }
    match dns with
    | .ok address => { state with serverAddress := address, dnsRequestSent := true }
    | .inProgress => { state with dnsRequestSent := true }
    | .failed => ntpSyncDone now { state with dnsRequestSent := true }
  else state

/-- The fields of a packet that `ntp_recv` looks at. -/
structure NtpPacket where
  addr : Nat
  port : Nat
  totLen : Nat
  mode : UInt8
  stratum : UInt8
  seconds : UInt8 × UInt8 × UInt8 × UInt8

/-- The four bytes at offset 40, in network order. -/
def NtpPacket.secondsSince1900 (p : NtpPacket) : Nat :=
  p.seconds.1.toNat * 2 ^ 24 + p.seconds.2.1.toNat * 2 ^ 16 + p.seconds.2.2.1.toNat * 2 ^ 8 +
    p.seconds.2.2.2.toNat

/-- `ntp_recv`. The subtraction is in 32 bits. -/
def ntpRecv (now nowMs : Nat) (p : NtpPacket) (state : Ntp) : Ntp :=
  if p.addr = state.serverAddress ∧ p.port = ntpPort ∧ p.totLen = ntpMsgLen ∧ p.mode = 4 ∧
      p.stratum ≠ 0 then
    let secondsSince1970 := (p.secondsSince1900 + 2 ^ 32 - ntpDelta) % 2 ^ 32
    ntpSyncDone now { state with epochSecs := secondsSince1970, hwRefMs := nowMs, synced := true }
  else ntpSyncDone now state

/-- `ntp_failed_handler`. -/
def ntpFailedHandler (now : Nat) (state : Ntp) : Ntp :=
  ntpSyncDone now state

/-- `ntp_dns_found`. -/
def ntpDnsFound (now : Nat) (ipaddr : Option Nat) (state : Ntp) : Ntp :=
  match ipaddr with
  | some address => { state with serverAddress := address }
  | none => ntpSyncDone now state

/-- A callback of the NTP client. -/
inductive NtpEvent where
  | recv (now nowMs : Nat) (p : NtpPacket)
  | failed (now : Nat)
  | dnsFound (now : Nat) (ipaddr : Option Nat)

/-- The callback runs. -/
def NtpEvent.apply : NtpEvent → Ntp → Ntp
  | .recv now nowMs p => ntpRecv now nowMs p
  | .failed now => ntpFailedHandler now
  | .dnsFound now ipaddr => ntpDnsFound now ipaddr

/-- `get_current_epoch`, in 64-bit arithmetic. -/
def getCurrentEpoch (nowMs : Nat) (ntpState : Option Ntp) : DtErr × Option Nat :=
  match ntpState with
  | none => (.offline, none)
  | some state =>
      if !state.synced then (.offline, none)
      else
        let delta := (nowMs + 2 ^ 64 - state.hwRefMs) % 2 ^ 64
        (.ok, some ((state.epochSecs * 1000 + delta) % 2 ^ 64))

/-! ## What a step leaves alone -/

/-- The end of an attempt keeps `synced`. -/
@[simp] theorem ntpSyncDone_synced (now : Nat) (state : Ntp) :
    (ntpSyncDone now state).synced = state.synced := by
  unfold ntpSyncDone
  split <;> rfl

/-- `ntp_poll` keeps `synced`. -/
@[simp] theorem ntpPoll_synced (now : Nat) (alarm : Int) (dns : DnsResult) (state : Ntp) :
    (ntpPoll now alarm dns state).synced = state.synced := by
  unfold ntpPoll
  split
  · cases dns <;> simp
  · rfl

/-- No callback takes a synchronisation back. -/
theorem NtpEvent.apply_synced (e : NtpEvent) {state : Ntp} (h : state.synced) :
    (e.apply state).synced := by
  cases e with
  | recv now nowMs p =>
      show (ntpRecv now nowMs p state).synced
      unfold ntpRecv
      split <;> simp [h]
  | failed now => simpa [NtpEvent.apply, ntpFailedHandler] using h
  | dnsFound now ipaddr =>
      cases ipaddr <;> simpa [NtpEvent.apply, ntpDnsFound] using h

/-- Once synchronised, the epoch is available. -/
theorem getCurrentEpoch_synced {state : Ntp} (h : state.synced) (nowMs : Nat) :
    (getCurrentEpoch nowMs (some state)).1 = .ok := by
  simp [getCurrentEpoch, h]

end DirtieNode.Util
