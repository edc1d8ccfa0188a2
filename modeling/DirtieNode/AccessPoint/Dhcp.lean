import DirtieNode.Library.Memory

/-!
# The DHCP server

`dhcpserver.c`: the eight leases and what a datagram does to them. The expiry of a lease is the
upper half of a wrapping 32-bit count of milliseconds. Reading past the end of the stack is `none`.
-/

namespace DirtieNode.AccessPoint

open CString

/-- `DHCPS_BASE_IP`. -/
def dhcpsBaseIp : Nat := 16

/-- `DHCPS_MAX_IP`. -/
def dhcpsMaxIp : Nat := 8

/-- `DEFAULT_LEASE_TIME_S`. -/
def defaultLeaseTimeS : Nat := 24 * 60 * 60

/-- `MAC_LEN`. -/
def macLen : Nat := 6

/-- `DHCP_MIN_SIZE`. -/
def dhcpMinSize : Nat := 240 + 3

/-- `sizeof(dhcp_msg_t)`. -/
def dhcpMsgSize : Nat := 548

/-- The place of `chaddr` in the message. -/
def chaddrOffset : Nat := 28

/-- The place of `options` in the message. -/
def optionsOffset : Nat := 236

/-- `DHCPDISCOVER`. -/
def dhcpDiscover : UInt8 := 1

/-- `DHCPOFFER`. -/
def dhcpOffer : UInt8 := 2

/-- `DHCPREQUEST`. -/
def dhcpRequest : UInt8 := 3

/-- `DHCPACK`. -/
def dhcpAck : UInt8 := 5

/-- `DHCP_OPT_SUBNET_MASK`. -/
def dhcpOptSubnetMask : UInt8 := 1

/-- `DHCP_OPT_ROUTER`. -/
def dhcpOptRouter : UInt8 := 3

/-- `DHCP_OPT_DNS`. -/
def dhcpOptDns : UInt8 := 6

/-- `DHCP_OPT_REQUESTED_IP`. -/
def dhcpOptRequestedIp : UInt8 := 50

/-- `DHCP_OPT_IP_LEASE_TIME`. -/
def dhcpOptIpLeaseTime : UInt8 := 51

/-- `DHCP_OPT_MSG_TYPE`. -/
def dhcpOptMsgType : UInt8 := 53

/-- `DHCP_OPT_SERVER_ID`. -/
def dhcpOptServerId : UInt8 := 54

/-- `DHCP_OPT_END`. -/
def dhcpOptEnd : UInt8 := 255

/-- A hardware address. -/
abbrev Mac := List UInt8

/-- The address of a free entry. -/
def zeroMac : Mac := List.replicate macLen 0

/-- `dhcp_server_lease_t`. -/
structure Lease where
  mac : Mac := zeroMac
  expiry : UInt16 := 0
  deriving DecidableEq

/-- `dhcp_server_t`, without the socket. The addresses are in network order. -/
structure DhcpServer where
  ip : List UInt8
  nm : List UInt8
  lease : List Lease
  size : lease.length = dhcpsMaxIp

/-- `dhcp_server_init`. -/
def dhcpServerInit (ip nm : List UInt8) : DhcpServer where
  ip := ip
  nm := nm
  lease := List.replicate dhcpsMaxIp {}
  size := List.length_replicate

/-- A message that is sent, with its type and the entry of its address. -/
structure DhcpReply where
  msgType : UInt8
  yi : Nat
  bytes : List UInt8
  deriving DecidableEq

/-! ## Options -/

/-- The loop of `opt_find` from index `i` on: the index of the option, or `NULL`. The first argument
bounds the iterations, each of which moves on by two bytes at least. -/
def optFindLoop (opt : List UInt8) (cmd : UInt8) : Nat → Nat → Option (Option Nat)
  | 0, _ => none
  | fuel + 1, i =>
      if i < 308 then do
        let b ← opt[i]?
        if b = dhcpOptEnd then some none
        else if b = cmd then some (some i)
        else
          let len ← opt[i + 1]?
          optFindLoop opt cmd fuel (i + 2 + len.toNat)
      else some none

/-- `opt_find`. -/
def optFind (opt : List UInt8) (cmd : UInt8) : Option (Option Nat) :=
  optFindLoop opt cmd 155 0

/-- The calls of `opt_write_n`, `opt_write_u8` and `opt_write_u32` that build a reply. -/
def replyOptions (d : DhcpServer) (msgType : UInt8) : List UInt8 :=
  [dhcpOptMsgType, 1, msgType] ++ dhcpOptServerId :: 4 :: d.ip ++ dhcpOptSubnetMask :: 4 :: d.nm ++
    dhcpOptRouter :: 4 :: d.ip ++ dhcpOptDns :: 4 :: d.ip ++
    [dhcpOptIpLeaseTime, 4, 0x00, 0x01, 0x51, 0x80, dhcpOptEnd]

/-- The reply to a message: its opcode, address and options replaced. -/
def dhcpReply (d : DhcpServer) (msg : List UInt8) (msgType : UInt8) (yi : Nat) : DhcpReply where
  msgType := msgType
  yi := yi
  bytes := dhcpOffer :: (msg.drop 1).take 15 ++ (d.ip.take 3 ++ [(dhcpsBaseIp + yi).toUInt8]) ++
    (msg.drop 20).take 220 ++ replyOptions d msgType

/-! ## The clock -/

/-- `cyw43_hal_ticks_ms` at an uptime in milliseconds. -/
def ticksMs (now : Nat) : Nat :=
  now % 2 ^ 32

/-- The `expiry` of a lease that is given now. -/
def leaseExpiry (now : Nat) : UInt16 :=
  ((ticksMs now + defaultLeaseTimeS * 1000) % 2 ^ 32 / 2 ^ 16).toUInt16

/-- The test for an expired lease: the difference is negative as an `int32_t`. -/
def Lease.expired (l : Lease) (now : Nat) : Bool :=
  let expiry := l.expiry.toNat * 2 ^ 16 + 0xffff
  decide (2 ^ 31 ≤ (expiry + 2 ^ 32 - ticksMs now) % 2 ^ 32)

/-! ## Messages -/

/-- The loop of the `DHCPDISCOVER` case from entry `i` on, with the entry found so far. The clock is
read again in each iteration. -/
def discoverLoop (chaddr : Mac) (clock : Nat → Nat) : Nat → Nat → List Lease → Nat × List Lease
  | _, yi, [] => (yi, [])
  | i, yi, l :: rest =>
      if l.mac = chaddr then (i, l :: rest)
      else if yi = dhcpsMaxIp then
        -- an expired entry is cleared, whether it was free or not
        if l.expired (clock i) then
          let found := discoverLoop chaddr clock (i + 1) i rest
          (found.1, { l with mac := zeroMac } :: found.2)
        else
          let found := discoverLoop chaddr clock (i + 1) (if l.mac = zeroMac then i else yi) rest
          (found.1, l :: found.2)
      else
        let found := discoverLoop chaddr clock (i + 1) yi rest
        (found.1, l :: found.2)

/-- The loop keeps the number of entries. -/
theorem discoverLoop_length (chaddr : Mac) (clock : Nat → Nat) (i yi : Nat) (lease : List Lease) :
    (discoverLoop chaddr clock i yi lease).2.length = lease.length := by
  induction lease generalizing i yi with
  | nil => rfl
  | cons l rest ih =>
      unfold discoverLoop
      split
      · rfl
      · split
        · split <;> simp [ih]
        · simp [ih]

/-- The case `DHCPDISCOVER`. -/
def processDiscover (d : DhcpServer) (msg : List UInt8) (chaddr : Mac) (clock : Nat → Nat) :
    Option DhcpReply × DhcpServer :=
  let found := discoverLoop chaddr clock 0 dhcpsMaxIp d.lease
  let d' := { d with lease := found.2, size := (discoverLoop_length ..).trans d.size }
  if found.1 = dhcpsMaxIp then (none, d') else (some (dhcpReply d msg dhcpOffer found.1), d')

/-- The case `DHCPREQUEST`. A request that cannot be granted is ignored. -/
def processRequest (d : DhcpServer) (msg opt : List UInt8) (chaddr : Mac) (now : Nat) :
    Option (Option DhcpReply × DhcpServer) := do
  match ← optFind opt dhcpOptRequestedIp with
  | none => pure (none, d)
  | some o =>
      let net ← load opt (o + 2) 3
      if net ≠ d.ip.take 3 then pure (none, d)
      else
        let last ← opt[o + 5]?
        let yi := (last - dhcpsBaseIp.toUInt8).toNat
        if dhcpsMaxIp ≤ yi then pure (none, d)
        else
          let l ← d.lease[yi]?
          if l.mac = chaddr ∨ l.mac = zeroMac then
            let d' := { d with lease := d.lease.set yi ⟨chaddr, leaseExpiry now⟩,
                               size := List.length_set.trans d.size }
            pure (some (dhcpReply d msg dhcpAck yi), d')
          else pure (none, d)

/-- `dhcp_server_process` of a datagram. The message is copied over what is on the stack, and the
options can be read beyond it. -/
def dhcpServerProcess (d : DhcpServer) (packet stack : List UInt8) (clock : Nat → Nat) :
    Option (Option DhcpReply × DhcpServer) :=
  if packet.length < dhcpMinSize then some (none, d)
  else do
    let len := min packet.length dhcpMsgSize
    let msg := packet.take len ++ stack.drop len
    let opt := msg.drop (optionsOffset + 4)
    let chaddr := (msg.drop chaddrOffset).take macLen
    match ← optFind opt dhcpOptMsgType with
    | none => pure (none, d)
    | some msgtype =>
        let type ← opt[msgtype + 2]?
        if type = dhcpDiscover then pure (processDiscover d msg chaddr clock)
        else if type = dhcpRequest then processRequest d msg opt chaddr (clock 0)
        else pure (none, d)

end DirtieNode.AccessPoint
