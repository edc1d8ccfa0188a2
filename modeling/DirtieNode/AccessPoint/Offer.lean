import DirtieNode.AccessPoint.Lease

/-!
# Offers are honoured

A discovery ends at an entry that is free or belongs to the client, and that is just what a request
needs. The entry is found even when others have been cleared on the way to it, and the first entry
of a client is never cleared before it is found.
-/

namespace DirtieNode.AccessPoint

open CString

/-- The message that a datagram is copied to. -/
def Datagram.msg (e : Datagram) : List UInt8 :=
  e.packet.take (min e.packet.length dhcpMsgSize) ++
    e.stack.drop (min e.packet.length dhcpMsgSize)

/-- The options behind the magic cookie. -/
def Datagram.opt (e : Datagram) : List UInt8 :=
  e.msg.drop (optionsOffset + 4)

/-- The datagram is a message of this type. -/
structure Datagram.IsMessage (e : Datagram) (type : UInt8) : Prop where
  size : dhcpMinSize ≤ e.packet.length
  option : ∃ m, optFind e.opt dhcpOptMsgType = some (some m) ∧ e.opt[m + 2]? = some type

/-- The datagram is a request for this address. -/
structure Datagram.Requests (e : Datagram) (addr : List UInt8) : Prop
    extends e.IsMessage dhcpRequest where
  requested : ∃ o, optFind e.opt dhcpOptRequestedIp = some (some o) ∧
    load e.opt (o + 2) 4 = some addr

/-- The address of an entry. -/
def DhcpServer.address (d : DhcpServer) (yi : Nat) : List UInt8 :=
  d.ip.take 3 ++ [(dhcpsBaseIp + yi).toUInt8]

/-- `yiaddr` of a reply. -/
def DhcpReply.yiaddr (r : DhcpReply) : List UInt8 :=
  (r.bytes.drop 16).take 4

/-- A request of the client for the address of the offer is acknowledged, and the client holds the
entry of the address then. -/
def Honoured (d : DhcpServer) (client : Mac) (offer : DhcpReply) : Prop :=
  ∀ e : Datagram, e.chaddr = client → e.Requests offer.yiaddr →
    ∃ ack d', dhcpServerProcess d e.packet e.stack e.clock = some (some ack, d') ∧
      ack.msgType = dhcpAck ∧ ack.yiaddr = offer.yiaddr ∧
      d'.lease[offer.yi]? = some ⟨client, leaseExpiry (e.clock 0)⟩

/-- The first entry of a client. -/
def DhcpServer.entryOf (d : DhcpServer) (client : Mac) : Nat :=
  d.lease.findIdx fun l ↦ l.mac == client

/-! ## The search for an entry -/

/-- The search from entry `i` on has ended at an entry that is the client's or free, or at the one
that was found before. -/
def FoundFrom (chaddr : Mac) (i yi : Nat) (found : Nat × List Lease) : Prop :=
  found.1 = yi ∨ ∃ k l, found.1 = i + k ∧ found.2[k]? = some l ∧ (l.mac = chaddr ∨ l.mac = zeroMac)

section Search

variable {chaddr : Mac} {i yi : Nat} {found : Nat × List Lease} {l : Lease}

/-- The search goes on behind an entry. -/
theorem FoundFrom.cons (h : FoundFrom chaddr (i + 1) yi found) :
    FoundFrom chaddr i yi (found.1, l :: found.2) := by
  rcases h with hbefore | ⟨k, l', hindex, hentry, hfree⟩
  · exact .inl hbefore
  · refine .inr ⟨k + 1, l', ?_, hentry, hfree⟩
    show found.1 = i + (k + 1)
    omega

/-- The entry that is found here is still free when the search goes on. -/
theorem FoundFrom.cons_free (hl : l.mac = zeroMac) (h : FoundFrom chaddr (i + 1) i found) :
    FoundFrom chaddr i yi (found.1, l :: found.2) := by
  rcases h with hhere | ⟨k, l', hindex, hentry, hfree⟩
  · exact .inr ⟨0, l, hhere, rfl, .inr hl⟩
  · refine .inr ⟨k + 1, l', ?_, hentry, hfree⟩
    show found.1 = i + (k + 1)
    omega

/-- The loop finds an entry as it should. -/
theorem discoverLoop_foundFrom (chaddr : Mac) (clock : Nat → Nat) (i yi : Nat)
    (lease : List Lease) : FoundFrom chaddr i yi (discoverLoop chaddr clock i yi lease) := by
  induction lease generalizing i yi with
  | nil => exact .inl rfl
  | cons l rest ih =>
      unfold discoverLoop
      split
      · rename_i hmatch
        exact .inr ⟨0, l, rfl, rfl, .inl hmatch⟩
      · split
        · split
          · exact (ih (i + 1) i).cons_free rfl
          · split
            · rename_i hfree
              exact (ih (i + 1) i).cons_free hfree
            · exact (ih (i + 1) yi).cons
        · exact (ih (i + 1) yi).cons

/-- The search ends at the first entry of the client, whatever it has found and cleared before. -/
theorem discoverLoop_first (clock : Nat → Nat) (i yi : Nat) {lease : List Lease}
    (h : ∃ l ∈ lease, l.mac = chaddr) :
    (discoverLoop chaddr clock i yi lease).1 = i + lease.findIdx fun l ↦ l.mac == chaddr := by
  induction lease generalizing i yi with
  | nil =>
      obtain ⟨l, hmem, -⟩ := h
      exact absurd hmem List.not_mem_nil
  | cons l rest ih =>
      unfold discoverLoop
      rw [List.findIdx_cons]
      by_cases hmatch : l.mac = chaddr
      · rw [if_pos hmatch, hmatch, beq_self_eq_true]
        rfl
      · have hrest : ∃ l ∈ rest, l.mac = chaddr := by
          obtain ⟨l', hmem, hmac⟩ := h
          rcases List.mem_cons.mp hmem with rfl | hmem
          · exact absurd hmac hmatch
          · exact ⟨l', hmem, hmac⟩
        have hindex : ∀ yi, (discoverLoop chaddr clock (i + 1) yi rest).1 =
            i + ((rest.findIdx fun l ↦ l.mac == chaddr) + 1) := by
          intro yi
          rw [ih (i + 1) yi hrest]
          omega
        rw [if_neg hmatch, beq_false_of_ne hmatch]
        split
        · split
          · exact hindex i
          · exact hindex _
        · exact hindex yi

end Search

/-! ## Messages of a type -/

section Messages

variable {d d' : DhcpServer} {e : Datagram} {type : UInt8}

/-- The buffer of the message has its full size. -/
theorem Datagram.msg_length (e : Datagram) : dhcpMsgSize ≤ e.msg.length := by
  have hstack := e.stack_size
  rw [Datagram.msg, List.length_append, List.length_take, List.length_drop]
  omega

/-- A datagram that is not too short is a message when it has a type. -/
theorem dhcpServerProcess_eq_bind (d : DhcpServer) (h : dhcpMinSize ≤ e.packet.length) :
    dhcpServerProcess d e.packet e.stack e.clock =
      (optFind e.opt dhcpOptMsgType).bind fun found ↦ found.elim (some (none, d)) fun msgtype ↦
        (e.opt[msgtype + 2]?).bind fun type ↦
          if type = dhcpDiscover then some (processDiscover d e.msg e.chaddr e.clock)
          else if type = dhcpRequest then processRequest d e.msg e.opt e.chaddr (e.clock 0)
          else some (none, d) := by
  unfold dhcpServerProcess
  rw [if_neg (Nat.not_lt.mpr h)]
  show (optFind e.opt dhcpOptMsgType).bind _ = _
  congr 1
  funext found
  cases found <;> rfl

/-- The case of a message is chosen by its type. -/
theorem process_of_message (d : DhcpServer) (h : e.IsMessage type) :
    dhcpServerProcess d e.packet e.stack e.clock =
      if type = dhcpDiscover then some (processDiscover d e.msg e.chaddr e.clock)
      else if type = dhcpRequest then processRequest d e.msg e.opt e.chaddr (e.clock 0)
      else some (none, d) := by
  obtain ⟨hsize, m, hfind, htype⟩ := h
  rw [dhcpServerProcess_eq_bind d hsize, hfind, Option.bind_some, Option.elim_some, htype,
    Option.bind_some]

/-- The reply has the address of its entry. -/
theorem dhcpReply_yiaddr (hip : d.ip.length = 4) {msg : List UInt8}
    (hmsg : dhcpMsgSize ≤ msg.length) (type : UInt8) (yi : Nat) :
    (dhcpReply d msg type yi).yiaddr = d.address yi := by
  have hmin : dhcpMsgSize = 548 := rfl
  have hfront : (dhcpOffer :: (msg.drop 1).take 15).length = 16 := by
    rw [List.length_cons, List.length_take, List.length_drop]
    omega
  have haddress : (d.address yi).length = 4 := by
    rw [DhcpServer.address, List.length_append, List.length_take, hip]
    rfl
  show ((dhcpOffer :: (msg.drop 1).take 15 ++ d.address yi ++ (msg.drop 20).take 220 ++
    replyOptions d type).drop 16).take 4 = d.address yi
  rw [List.append_assoc, List.append_assoc, ← hfront, List.drop_left, ← haddress, List.take_left]

/-- The last byte of an address is read back as its entry. -/
theorem entry_of_address {yi : Nat} (h : yi < dhcpsMaxIp) :
    ((dhcpsBaseIp + yi).toUInt8 - dhcpsBaseIp.toUInt8).toNat = yi := by
  have hmax : dhcpsMaxIp = 8 := rfl
  have hlow : dhcpsBaseIp.toUInt8.toNat = 16 := rfl
  have hhigh : (dhcpsBaseIp + yi).toUInt8.toNat = 16 + yi := by
    rw [Nat.toUInt8, UInt8.toNat_ofNat', dhcpsBaseIp]
    omega
  rw [UInt8.toNat_sub, hlow, hhigh]
  omega

/-- A request for the address of an entry that is the client's or free is acknowledged. -/
theorem processRequest_granted (msg : List UInt8) (now : Nat) {opt : List UInt8} {chaddr : Mac}
    {o yi : Nat} {l : Lease} (hip : d.ip.length = 4) (hyi : yi < dhcpsMaxIp)
    (hfind : optFind opt dhcpOptRequestedIp = some (some o))
    (haddr : load opt (o + 2) 4 = some (d.address yi))
    (hentry : d.lease[yi]? = some l) (hfree : l.mac = chaddr ∨ l.mac = zeroMac) :
    ∃ d', processRequest d msg opt chaddr now = some (some (dhcpReply d msg dhcpAck yi), d') ∧
      d'.lease = d.lease.set yi ⟨chaddr, leaseExpiry now⟩ := by
  have hroom : o + 2 + 4 ≤ opt.length := by
    by_contra hlong
    rw [load, if_neg hlong] at haddr
    exact absurd haddr (by simp)
  have hbytes : (opt.drop (o + 2)).take 4 = d.address yi := by
    rw [load_eq_some hroom] at haddr
    exact Option.some.inj haddr
  have hnet : load opt (o + 2) 3 = some (d.ip.take 3) := by
    rw [load_eq_some (by omega), show 3 = min 3 4 from rfl, ← List.take_take, hbytes,
      DhcpServer.address]
    exact congrArg some (List.take_left' (by rw [List.length_take, hip]; rfl))
  have hlast : opt[o + 5]? = some (dhcpsBaseIp + yi).toUInt8 := by
    have hbyte : ((opt.drop (o + 2)).take 4)[3]? = opt[o + 5]? := by
      rw [List.getElem?_take, if_pos (by omega), List.getElem?_drop]
    rw [← hbyte, hbytes, DhcpServer.address, List.getElem?_append_right (by simp [hip])]
    simp [hip]
  unfold processRequest
  simp only [hfind, hnet, hlast, hentry, entry_of_address hyi, hfree, Nat.not_le.mpr hyi, bind,
    Option.bind_some, pure, if_true, if_false, ne_eq, not_true_eq_false]
  exact ⟨_, rfl, rfl⟩

/-- A server with an address in the entry of the offer honours it. -/
theorem honoured_of_entry {client : Mac} {offer : DhcpReply} {l : Lease} (hip : d.ip.length = 4)
    (hyi : offer.yi < dhcpsMaxIp) (haddr : offer.yiaddr = d.address offer.yi)
    (hentry : d.lease[offer.yi]? = some l) (hfree : l.mac = client ∨ l.mac = zeroMac) :
    Honoured d client offer := by
  intro e hclient hrequests
  obtain ⟨hmessage, o, hfind, hrequested⟩ := hrequests
  rw [haddr] at hrequested
  rw [← hclient] at hfree
  obtain ⟨d', hgranted, hlease⟩ := processRequest_granted e.msg (e.clock 0) hip hyi
    hfind hrequested hentry hfree
  refine ⟨dhcpReply d e.msg dhcpAck offer.yi, d', ?_, rfl, ?_, ?_⟩
  · rw [process_of_message d hmessage, if_neg (by decide), if_pos rfl]
    exact hgranted
  · rw [dhcpReply_yiaddr hip e.msg_length, haddr]
  · rw [hlease, ← hclient, List.getElem?_set_self (List.getElem?_eq_some_iff.mp hentry).1]

end Messages

/-- What a discovery is answered with: the entry is the client's or free, and it is the first one of
a client that has an entry. -/
theorem processDiscover_offer (d : DhcpServer) (msg : List UInt8) (chaddr : Mac)
    (clock : Nat → Nat) {offer : DhcpReply} {d' : DhcpServer}
    (h : processDiscover d msg chaddr clock = (some offer, d')) :
    offer = dhcpReply d msg dhcpOffer offer.yi ∧ offer.yi < dhcpsMaxIp ∧ d'.ip = d.ip ∧
      ∃ l, d'.lease[offer.yi]? = some l ∧ (l.mac = chaddr ∨ l.mac = zeroMac) := by
  have hfound := discoverLoop_foundFrom chaddr clock 0 dhcpsMaxIp d.lease
  unfold processDiscover at h
  dsimp only at h
  split at h
  · exact absurd (Prod.mk.inj h).1 (by simp)
  · rename_i hyi
    obtain ⟨hreply, rfl⟩ := Prod.mk.inj h
    obtain rfl := Option.some.inj hreply
    obtain ⟨k, l, hk, hentry, hfree⟩ := hfound.resolve_left hyi
    rw [Nat.zero_add] at hk
    have hlt : k < dhcpsMaxIp := by
      have hlength := discoverLoop_length chaddr clock 0 dhcpsMaxIp d.lease
      rw [d.size] at hlength
      rw [← hlength]
      exact (List.getElem?_eq_some_iff.mp hentry).1
    refine ⟨rfl, hk ▸ hlt, rfl, l, ?_, hfree⟩
    show (discoverLoop chaddr clock 0 dhcpsMaxIp d.lease).2[
      (discoverLoop chaddr clock 0 dhcpsMaxIp d.lease).1]? = some l
    rw [hk, hentry]

/-- A client with an entry gets an offer of the first one. -/
theorem processDiscover_first {d : DhcpServer} (msg : List UInt8) {chaddr : Mac}
    (clock : Nat → Nat) (h : ∃ l ∈ d.lease, l.mac = chaddr) :
    ∃ d', processDiscover d msg chaddr clock =
      (some (dhcpReply d msg dhcpOffer (d.entryOf chaddr)), d') := by
  have hfirst := discoverLoop_first clock 0 dhcpsMaxIp h
  have hlt : d.entryOf chaddr < dhcpsMaxIp := by
    obtain ⟨l, hmem, hmac⟩ := h
    rw [← d.size]
    exact List.findIdx_lt_length_of_exists ⟨l, hmem, beq_iff_eq.mpr hmac⟩
  have hyi : (discoverLoop chaddr clock 0 dhcpsMaxIp d.lease).1 = d.entryOf chaddr := by
    rw [hfirst, Nat.zero_add]
    rfl
  unfold processDiscover
  dsimp only
  rw [hyi, if_neg (Nat.ne_of_lt hlt)]
  exact ⟨_, rfl⟩

/-- For every table and every clock: an offer is honoured when no other message comes between, and a
client that has an entry is offered the address of its first one. -/
theorem offers_honoured {d : DhcpServer} (hip : d.ip.length = 4) {e : Datagram}
    (h : e.IsMessage dhcpDiscover) :
    (∀ offer d', dhcpServerProcess d e.packet e.stack e.clock = some (some offer, d') →
      offer.msgType = dhcpOffer ∧ offer.yi < dhcpsMaxIp ∧ offer.yiaddr = d.address offer.yi ∧
        Honoured d' e.chaddr offer) ∧
      ((∃ l ∈ d.lease, l.mac = e.chaddr) →
        ∃ offer d', dhcpServerProcess d e.packet e.stack e.clock = some (some offer, d') ∧
          offer.msgType = dhcpOffer ∧ offer.yiaddr = d.address (d.entryOf e.chaddr)) := by
  rw [process_of_message d h, if_pos rfl]
  constructor
  · intro offer d' hprocess
    obtain ⟨hoffer, hyi, hip', l, hentry, hfree⟩ :=
      processDiscover_offer d e.msg e.chaddr e.clock (Option.some.inj hprocess)
    have haddr : offer.yiaddr = d.address offer.yi := by
      rw [hoffer]
      exact dhcpReply_yiaddr hip e.msg_length dhcpOffer offer.yi
    refine ⟨by rw [hoffer]; rfl, hyi, haddr, ?_⟩
    refine honoured_of_entry (by rw [hip', hip]) hyi ?_ hentry hfree
    rw [haddr, DhcpServer.address, DhcpServer.address, hip']
  · intro hclient
    obtain ⟨d', hfirst⟩ := processDiscover_first e.msg e.clock hclient
    exact ⟨_, d', congrArg some hfirst, rfl, dhcpReply_yiaddr hip e.msg_length _ _⟩

/-- The first client of a new server takes what it was offered, an hour later. -/
theorem offers_honoured_first : ∃ offer d' ack d'',
    dhcpServerProcess (dhcpServerInit [192, 168, 4, 1] [255, 255, 255, 0])
        (clientMessage [2, 0, 0, 0, 0, 1] dhcpDiscover 0).packet
        (clientMessage [2, 0, 0, 0, 0, 1] dhcpDiscover 0).stack (fun _ ↦ 0) =
      some (some offer, d') ∧
    dhcpServerProcess d' (clientMessage [2, 0, 0, 0, 0, 1] dhcpRequest 3600000).packet
        (clientMessage [2, 0, 0, 0, 0, 1] dhcpRequest 3600000).stack (fun _ ↦ 3600000) =
      some (some ack, d'') ∧
    ack.yiaddr = offer.yiaddr ∧
    d''.lease[0]? = some ⟨[2, 0, 0, 0, 0, 1], leaseExpiry 3600000⟩ := by
  have hip : (dhcpServerInit [192, 168, 4, 1] [255, 255, 255, 0]).ip.length = 4 := rfl
  have hdiscover : (clientMessage [2, 0, 0, 0, 0, 1] dhcpDiscover 0).IsMessage dhcpDiscover :=
    ⟨by decide +kernel, 0, by decide +kernel, by decide +kernel⟩
  have hoffered : (dhcpServerProcess (dhcpServerInit [192, 168, 4, 1] [255, 255, 255, 0])
      (clientMessage [2, 0, 0, 0, 0, 1] dhcpDiscover 0).packet
      (clientMessage [2, 0, 0, 0, 0, 1] dhcpDiscover 0).stack
      (fun _ ↦ 0)).map (fun result ↦ result.1.map DhcpReply.yi) = some (some 0) := by
    decide +kernel
  obtain ⟨⟨reply, d'⟩, hprocess, hreply⟩ := Option.map_eq_some_iff.mp hoffered
  obtain ⟨offer, rfl, hyi⟩ := Option.map_eq_some_iff.mp hreply
  obtain ⟨-, -, haddr, hhonoured⟩ := (offers_honoured hip hdiscover).1 offer d' hprocess
  have hclient : (clientMessage [2, 0, 0, 0, 0, 1] dhcpDiscover 0).chaddr = [2, 0, 0, 0, 0, 1] := by
    decide +kernel
  rw [hclient] at hhonoured
  rw [hyi] at haddr
  have hrequests : (clientMessage [2, 0, 0, 0, 0, 1] dhcpRequest 3600000).Requests
      offer.yiaddr := by
    rw [haddr]
    exact ⟨⟨by decide +kernel, 0, by decide +kernel, by decide +kernel⟩, 3,
      by decide +kernel, by decide +kernel⟩
  obtain ⟨ack, d'', hack, -, hsame, hentry⟩ := hhonoured
    (clientMessage [2, 0, 0, 0, 0, 1] dhcpRequest 3600000) (by decide +kernel) hrequests
  rw [hyi] at hentry
  exact ⟨offer, d', ack, d'', hprocess, hack, hsame, hentry⟩

end DirtieNode.AccessPoint
