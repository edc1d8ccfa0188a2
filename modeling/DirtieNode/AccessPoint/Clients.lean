import Mathlib.Data.List.Nodup
import DirtieNode.AccessPoint.Offer

/-!
# One address for each client

A client that keeps to the protocol requests the address it was offered last. A discovery offers a
client the first entry it has, so in every run of such clients a client holds at most one entry, and
eight clients can always be served.
-/

namespace DirtieNode.AccessPoint

open CString Transition

/-- The client and the address of an offer. -/
def offered (taken : Taken DhcpState Datagram) : Option (Mac × List UInt8) :=
  match dhcpServerProcess taken.before.server taken.event.packet taken.event.stack
      taken.event.clock with
  | some (some reply, _) =>
      if reply.msgType = dhcpOffer then some (taken.event.chaddr, reply.yiaddr) else none
  | _ => none

/-- The address that a client has been offered last. -/
def lastOffer (client : Mac) : List (Taken DhcpState Datagram) → Option (List UInt8)
  | [] => none
  | taken :: older =>
      match offered taken with
      | some (other, addr) => if other = client then some addr else lastOffer client older
      | none => lastOffer client older

/-- The address that a datagram requests. -/
def Datagram.requested (e : Datagram) : Option (List UInt8) :=
  ((optFind e.opt dhcpOptMsgType).join.bind fun m ↦ e.opt[m + 2]?).bind fun type ↦
    if type = dhcpRequest then
      (optFind e.opt dhcpOptRequestedIp).join.bind fun o ↦ load e.opt (o + 2) 4
    else none

/-- The datagram is from a client that has a hardware address, and that requests of the addresses of
the server only the one it was offered last. -/
def Conforming (older : List (Taken DhcpState Datagram)) (taken : Taken DhcpState Datagram) :
    Prop :=
  taken.event.chaddr ≠ zeroMac ∧
    ∀ yi < dhcpsMaxIp, taken.event.requested = some (taken.before.server.address yi) →
      lastOffer taken.event.chaddr older = some (taken.before.server.address yi)

instance (older : List (Taken DhcpState Datagram)) (taken : Taken DhcpState Datagram) :
    Decidable (Conforming older taken) :=
  inferInstanceAs (Decidable (_ ∧ _))

/-! ## What a datagram is -/

section Messages

variable {d d' : DhcpServer} {e : Datagram} {reply : Option DhcpReply}

/-- A datagram changes the server as a discovery or as a request, or not at all. -/
theorem message_cases (h : dhcpServerProcess d e.packet e.stack e.clock = some (reply, d')) :
    (reply = none ∧ d' = d) ∨
      (e.IsMessage dhcpDiscover ∧
        processDiscover d e.msg e.chaddr e.clock = (reply, d')) ∨
      (e.IsMessage dhcpRequest ∧
        processRequest d e.msg e.opt e.chaddr (e.clock 0) = some (reply, d')) := by
  by_cases hsize : dhcpMinSize ≤ e.packet.length
  · rw [dhcpServerProcess_eq_bind d hsize, Option.bind_eq_some_iff] at h
    obtain ⟨found, hfind, h⟩ := h
    cases found with
    | none =>
        obtain ⟨rfl, rfl⟩ := Prod.mk.inj (Option.some.inj h)
        exact .inl ⟨rfl, rfl⟩
    | some m =>
        obtain ⟨type, htype, h⟩ := Option.bind_eq_some_iff.mp h
        split at h
        · rename_i hdiscover
          exact .inr (.inl ⟨⟨hsize, m, hfind, hdiscover ▸ htype⟩, Option.some.inj h⟩)
        · split at h
          · rename_i hrequest
            exact .inr (.inr ⟨⟨hsize, m, hfind, hrequest ▸ htype⟩, h⟩)
          · obtain ⟨rfl, rfl⟩ := Prod.mk.inj (Option.some.inj h)
            exact .inl ⟨rfl, rfl⟩
  · rw [dhcpServerProcess, if_pos (Nat.lt_of_not_le hsize)] at h
    obtain ⟨rfl, rfl⟩ := Prod.mk.inj (Option.some.inj h)
    exact .inl ⟨rfl, rfl⟩

/-- A discovery keeps the address of the server. -/
theorem processDiscover_ip (d : DhcpServer) (msg : List UInt8) (chaddr : Mac)
    (clock : Nat → Nat) : (processDiscover d msg chaddr clock).2.ip = d.ip := by
  unfold processDiscover
  dsimp only
  split <;> rfl

/-- A discovery keeps the entries, or clears those that are over. -/
theorem processDiscover_kept (d : DhcpServer) (msg : List UInt8) (chaddr : Mac)
    (clock : Nat → Nat) :
    List.Forall₂ (Kept clock) d.lease (processDiscover d msg chaddr clock).2.lease := by
  have hkept := discoverLoop_kept chaddr clock 0 dhcpsMaxIp d.lease (by rw [d.size]; omega)
  unfold processDiscover
  dsimp only
  split
  · exact hkept
  · exact hkept

/-- The byte behind the base address is the last one of the address of its entry. -/
theorem last_of_entry (last : UInt8) :
    (dhcpsBaseIp + (last - dhcpsBaseIp.toUInt8).toNat).toUInt8 = last := by
  have hbase : dhcpsBaseIp = 16 := rfl
  have hlow : dhcpsBaseIp.toUInt8.toNat = 16 := rfl
  have hlast := last.toNat_lt
  apply UInt8.toNat_inj.mp
  rw [Nat.toUInt8, UInt8.toNat_ofNat', UInt8.toNat_sub, hlow]
  omega

/-- The four bytes of an option whose parts have been checked are the address of an entry. -/
theorem load_address {opt : List UInt8} {o : Nat} {last : UInt8}
    (hnet : load opt (o + 2) 3 = some (d.ip.take 3)) (hlast : opt[o + 5]? = some last) :
    load opt (o + 2) 4 = some (d.address (last - dhcpsBaseIp.toUInt8).toNat) := by
  have hroom : o + 5 < opt.length := (List.getElem?_eq_some_iff.mp hlast).1
  have hfront : (opt.drop (o + 2)).take 3 = d.ip.take 3 := by
    rw [load_eq_some (by omega)] at hnet
    exact Option.some.inj hnet
  have hbyte : (opt.drop (o + 2))[3]? = some last := by
    rw [List.getElem?_drop]
    exact hlast
  rw [load_eq_some (by omega), DhcpServer.address, last_of_entry last, ← hfront]
  show some ((opt.drop (o + 2)).take (3 + 1)) = _
  rw [List.take_add_one, hbyte]
  rfl

/-- A request for an address has it in its option. -/
theorem Datagram.Requests.requested_eq {addr : List UInt8} (h : e.Requests addr) :
    e.requested = some addr := by
  obtain ⟨⟨-, m, hfind, htype⟩, o, hoption, haddr⟩ := h
  rw [Datagram.requested, hfind]
  show ((e.opt[m + 2]?).bind _) = _
  rw [htype, Option.bind_some, if_pos rfl, hoption]
  exact haddr

/-- What a request does: nothing, or it is one for the address of an entry that is free or the
client's, which is given to the client. -/
theorem processRequest_cases (hmessage : e.IsMessage dhcpRequest)
    (h : processRequest d e.msg e.opt e.chaddr (e.clock 0) = some (reply, d')) :
    (reply = none ∧ d' = d) ∨
      ∃ yi < dhcpsMaxIp, e.Requests (d.address yi) ∧
        reply = some (dhcpReply d e.msg dhcpAck yi) ∧ d'.ip = d.ip ∧
          d'.lease = d.lease.set yi ⟨e.chaddr, leaseExpiry (e.clock 0)⟩ := by
  unfold processRequest at h
  simp only [bind, Option.bind_eq_some_iff] at h
  obtain ⟨found, hfind, h⟩ := h
  cases found with
  | none =>
      obtain ⟨rfl, rfl⟩ := Prod.mk.inj (Option.some.inj h)
      exact .inl ⟨rfl, rfl⟩
  | some o =>
      simp only [Option.bind_eq_some_iff] at h
      obtain ⟨net, hnet, h⟩ := h
      split at h
      · obtain ⟨rfl, rfl⟩ := Prod.mk.inj (Option.some.inj h)
        exact .inl ⟨rfl, rfl⟩
      · rename_i hsame
        simp only [Option.bind_eq_some_iff] at h
        obtain ⟨last, hlast, h⟩ := h
        split at h
        · obtain ⟨rfl, rfl⟩ := Prod.mk.inj (Option.some.inj h)
          exact .inl ⟨rfl, rfl⟩
        · rename_i hyi
          simp only [Option.bind_eq_some_iff] at h
          obtain ⟨l, _, h⟩ := h
          split at h
          · obtain ⟨rfl, rfl⟩ := Prod.mk.inj (Option.some.inj h)
            have hnet' : load e.opt (o + 2) 3 = some (d.ip.take 3) := by
              rw [hnet, not_not.mp hsame]
            have haddr := load_address hnet' hlast
            exact .inr ⟨_, Nat.lt_of_not_le hyi, ⟨hmessage, o, hfind, haddr⟩, rfl, rfl, rfl⟩
          · obtain ⟨rfl, rfl⟩ := Prod.mk.inj (Option.some.inj h)
            exact .inl ⟨rfl, rfl⟩

end Messages

/-! ## Discoveries that are not answered -/

/-- The entry is of another client, and its lease counts as running at this reading. -/
def Busy (chaddr : Mac) (now : Nat) (l : Lease) : Prop :=
  l.mac ≠ chaddr ∧ l.mac ≠ zeroMac ∧ l.expired now = false

/-- The search keeps what it has found, or ends at an entry it has come to. -/
theorem discoverLoop_index (chaddr : Mac) (clock : Nat → Nat) (i yi : Nat) (lease : List Lease) :
    (discoverLoop chaddr clock i yi lease).1 = yi ∨
      (discoverLoop chaddr clock i yi lease).1 < i + lease.length := by
  rcases discoverLoop_foundFrom chaddr clock i yi lease with hbefore | ⟨k, l, hindex, hentry, -⟩
  · exact .inl hbefore
  · have hlt := (List.getElem?_eq_some_iff.mp hentry).1
    rw [discoverLoop_length] at hlt
    rw [hindex]
    omega

/-- The search finds nothing exactly when all the entries it comes to are busy. -/
theorem discoverLoop_none_iff (chaddr : Mac) (clock : Nat → Nat) (i : Nat) {lease : List Lease}
    (hbound : i + lease.length ≤ dhcpsMaxIp) :
    (discoverLoop chaddr clock i dhcpsMaxIp lease).1 = dhcpsMaxIp ↔
      ∀ k l, lease[k]? = some l → Busy chaddr (clock (i + k)) l := by
  induction lease generalizing i with
  | nil => simp [discoverLoop]
  | cons l rest ih =>
      have hrest : i + 1 + rest.length ≤ dhcpsMaxIp := by
        rw [List.length_cons] at hbound
        omega
      -- once an entry has been found, the search does not lose it
      have hfound : (discoverLoop chaddr clock (i + 1) i rest).1 ≠ dhcpsMaxIp := by
        have := discoverLoop_index chaddr clock (i + 1) i rest
        omega
      have htail : (∀ k l', (l :: rest)[k]? = some l' → Busy chaddr (clock (i + k)) l') ↔
          Busy chaddr (clock i) l ∧
            ∀ k l', rest[k]? = some l' → Busy chaddr (clock (i + 1 + k)) l' := by
        constructor
        · intro hall
          refine ⟨hall 0 l rfl, fun k l' hentry ↦ ?_⟩
          have hnext := hall (k + 1) l' hentry
          rwa [← Nat.add_assoc, Nat.add_right_comm] at hnext
        · intro hboth k l' hentry
          cases k with
          | zero => exact Option.some.inj hentry ▸ hboth.1
          | succ k =>
              have hnext := hboth.2 k l' hentry
              rwa [Nat.add_assoc, Nat.add_comm 1] at hnext
      rw [htail]
      unfold discoverLoop
      split
      · rename_i hown
        constructor
        · intro hindex
          have hzero : i = dhcpsMaxIp := hindex
          omega
        · intro hall
          exact absurd hown hall.1.1
      · rename_i hother
        rw [if_pos rfl]
        split
        · rename_i hexpired
          constructor
          · intro hindex
            exact absurd hindex hfound
          · intro hall
            exact absurd hexpired (by rw [hall.1.2.2]; exact Bool.false_ne_true)
        · rename_i hrunning
          show (discoverLoop chaddr clock (i + 1) (if l.mac = zeroMac then i else dhcpsMaxIp)
            rest).1 = dhcpsMaxIp ↔ _
          by_cases hfree : l.mac = zeroMac
          · rw [if_pos hfree]
            constructor
            · intro hindex
              exact absurd hindex hfound
            · intro hall
              exact absurd hfree hall.1.2.1
          · rw [if_neg hfree, ih (i + 1) hrest]
            constructor
            · intro hall
              exact ⟨⟨hother, hfree, Bool.eq_false_iff.mpr hrunning⟩, hall⟩
            · intro hall
              exact hall.2

/-- A search that finds nothing clears nothing. -/
theorem discoverLoop_none (chaddr : Mac) (clock : Nat → Nat) (i : Nat) {lease : List Lease}
    (h : ∀ k l, lease[k]? = some l → Busy chaddr (clock (i + k)) l) :
    (discoverLoop chaddr clock i dhcpsMaxIp lease).2 = lease := by
  induction lease generalizing i with
  | nil => rfl
  | cons l rest ih =>
      obtain ⟨hother, htaken, hrunning⟩ := h 0 l rfl
      rw [Nat.add_zero] at hrunning
      have hrest : ∀ k l', rest[k]? = some l' → Busy chaddr (clock (i + 1 + k)) l' := by
        intro k l' hentry
        have hnext := h (k + 1) l' hentry
        rwa [← Nat.add_assoc, Nat.add_right_comm] at hnext
      rw [discoverLoop, if_neg hother, if_pos rfl, if_neg (Bool.eq_false_iff.mp hrunning),
        if_neg htaken]
      show l :: (discoverLoop chaddr clock (i + 1) dhcpsMaxIp rest).2 = l :: rest
      rw [ih (i + 1) hrest]

/-- A discovery is left without an answer exactly when all entries are busy, and then it changes
nothing. -/
theorem processDiscover_none_iff (d : DhcpServer) (msg : List UInt8) (chaddr : Mac)
    (clock : Nat → Nat) : (processDiscover d msg chaddr clock).1 = none ↔
      ∀ k l, d.lease[k]? = some l → Busy chaddr (clock k) l := by
  have hbound : 0 + d.lease.length ≤ dhcpsMaxIp := by
    rw [d.size]
    omega
  have hiff := discoverLoop_none_iff chaddr clock 0 hbound
  simp only [Nat.zero_add] at hiff
  rw [← hiff]
  unfold processDiscover
  dsimp only
  split
  · rename_i hindex
    exact ⟨fun _ ↦ hindex, fun _ ↦ rfl⟩
  · rename_i hindex
    exact ⟨fun hnone ↦ absurd hnone (by simp), fun h ↦ absurd h hindex⟩

/-- A discovery that is not answered leaves the table alone. -/
theorem processDiscover_none (d : DhcpServer) (msg : List UInt8) (chaddr : Mac)
    (clock : Nat → Nat) (h : (processDiscover d msg chaddr clock).1 = none) :
    (processDiscover d msg chaddr clock).2.lease = d.lease := by
  have hbusy := (processDiscover_none_iff d msg chaddr clock).mp h
  have hsame : (discoverLoop chaddr clock 0 dhcpsMaxIp d.lease).2 = d.lease := by
    refine discoverLoop_none chaddr clock 0 ?_
    simpa only [Nat.zero_add] using hbusy
  unfold processDiscover
  dsimp only
  split
  · exact hsame
  · exact hsame

/-- The end of a lease that was given at a time, as the server counts it. -/
def leaseEnd (start : Nat) : Nat :=
  (start + leaseTimeMs) / 2 ^ 16 * 2 ^ 16 + 0xffff

/-- A lease tests as expired after its end, and only in every other half of the range of the
clock. -/
theorem expired_iff {mac : Mac} {start now : Nat} (h : start ≤ now) :
    Lease.expired ⟨mac, leaseExpiry start⟩ now = true ↔
      leaseEnd start < now ∧ (now - leaseEnd start - 1) % 2 ^ 32 < 2 ^ 31 := by
  have hexpiry : (leaseExpiry start).toNat =
      (start % 2 ^ 32 + defaultLeaseTimeS * 1000) % 2 ^ 32 / 2 ^ 16 := by
    unfold leaseExpiry ticksMs
    rw [UInt16.toNat_ofNat']
    omega
  simp only [Lease.expired, hexpiry, ticksMs, decide_eq_true_eq]
  unfold leaseEnd leaseTimeMs defaultLeaseTimeS
  omega

/-! ## The offers of a run -/

section Offers

variable {s s' : DhcpState} {e : Datagram} {older : List (Taken DhcpState Datagram)}

/-- The offer of a datagram, by what the server sends. -/
theorem offered_of_process {reply : Option DhcpReply} {d' : DhcpServer} {after : DhcpState}
    (h : dhcpServerProcess s.server e.packet e.stack e.clock = some (reply, d')) :
    offered ⟨s, e, after⟩ = reply.bind fun r ↦
      if r.msgType = dhcpOffer then some (e.chaddr, r.yiaddr) else none := by
  unfold offered
  rw [h]
  cases reply <;> rfl

/-- An offer is for the client of the datagram. -/
theorem offered_client {taken : Taken DhcpState Datagram} {offer : Mac × List UInt8}
    (h : offered taken = some offer) : offer.1 = taken.event.chaddr := by
  unfold offered at h
  split at h
  · split at h
    · exact congrArg Prod.fst (Option.some.inj h).symm
    · exact absurd h (by simp)
  · exact absurd h (by simp)

/-- Another client's datagram does not change what a client has been offered last. -/
theorem lastOffer_other {client : Mac} {after : DhcpState} (h : client ≠ e.chaddr) :
    lastOffer client (⟨s, e, after⟩ :: older) = lastOffer client older := by
  show (match offered ⟨s, e, after⟩ with
    | some (other, addr) => if other = client then some addr else lastOffer client older
    | none => lastOffer client older) = _
  cases hoffer : offered ⟨s, e, after⟩ with
  | none => rfl
  | some offer =>
      show (if offer.1 = client then some offer.2 else lastOffer client older) = _
      rw [offered_client hoffer, if_neg (Ne.symm h)]

/-- A datagram without an offer leaves what every client has been offered last. -/
theorem lastOffer_none {taken : Taken DhcpState Datagram} (client : Mac)
    (h : offered taken = none) : lastOffer client (taken :: older) = lastOffer client older := by
  show (match offered taken with
    | some (other, addr) => if other = client then some addr else lastOffer client older
    | none => lastOffer client older) = _
  rw [h]

/-- An offer is the last one of its client. -/
theorem lastOffer_offered {taken : Taken DhcpState Datagram} {client : Mac} {addr : List UInt8}
    (h : offered taken = some (client, addr)) :
    lastOffer client (taken :: older) = some addr := by
  unfold lastOffer
  rw [h]
  exact if_pos rfl

end Offers

/-! ## Runs -/

/-- Each entry that is taken has the address its client has been offered last. -/
def HoldsOffer (older : List (Taken DhcpState Datagram)) (s : DhcpState) : Prop :=
  ∀ i l, s.server.lease[i]? = some l → l.mac ≠ zeroMac →
    lastOffer l.mac older = some (s.server.address i)

/-- An entry that is taken after a discovery was taken by the same client before. -/
theorem getElem?_of_kept {clock : Nat → Nat} {lease lease' : List Lease} {i : Nat} {l : Lease}
    (hkept : List.Forall₂ (Kept clock) lease lease') (h : lease'[i]? = some l)
    (htaken : l.mac ≠ zeroMac) : lease[i]? = some l := by
  obtain ⟨hi, rfl⟩ := List.getElem?_eq_some_iff.mp h
  have hi' : i < lease.length := hkept.length_eq ▸ hi
  have hone := hkept.get hi' hi
  rw [List.get_eq_getElem, List.get_eq_getElem] at hone
  rw [List.getElem?_eq_getElem hi']
  rcases hone with hsame | ⟨k, _, _, hcleared⟩
  · rw [hsame]
  · rw [hcleared] at htaken
    exact absurd rfl htaken

section Steps

variable {s s' : DhcpState} {e : Datagram} {older : List (Taken DhcpState Datagram)}

/-- A discovery of a client that has an entry offers it the address of that entry again. -/
theorem HoldsOffer.discover {reply : Option DhcpReply} (hip : s.server.ip.length = 4)
    (hinv : HoldsOffer older s) (hprocess :
      dhcpServerProcess s.server e.packet e.stack e.clock = some (reply, s'.server))
    (h : processDiscover s.server e.msg e.chaddr e.clock = (reply, s'.server)) :
    HoldsOffer (⟨s, e, s'⟩ :: older) s' := by
  intro i l hentry htaken
  have hkept := processDiscover_kept s.server e.msg e.chaddr e.clock
  have hip' := processDiscover_ip s.server e.msg e.chaddr e.clock
  rw [h] at hkept hip'
  have hbefore := getElem?_of_kept hkept hentry htaken
  have hsame : s'.server.address i = s.server.address i := by
    rw [DhcpServer.address, DhcpServer.address, hip']
  rw [hsame]
  by_cases hclient : l.mac = e.chaddr
  · -- the offer is that of the first entry of the client, whose address it was offered before
    have hexists : ∃ l ∈ s.server.lease, l.mac = e.chaddr :=
      ⟨l, List.mem_of_getElem? hbefore, hclient⟩
    obtain ⟨d', hfirst⟩ := processDiscover_first e.msg e.clock hexists
    obtain ⟨rfl, -⟩ := Prod.mk.inj (h.symm.trans hfirst)
    have hoffer : offered ⟨s, e, s'⟩ =
        some (l.mac, s.server.address (s.server.entryOf e.chaddr)) := by
      rw [offered_of_process hprocess, hclient]
      show (if dhcpOffer = dhcpOffer then some (e.chaddr, _) else none) = _
      rw [if_pos rfl, dhcpReply_yiaddr hip e.msg_length]
    have hindex : s.server.entryOf e.chaddr < s.server.lease.length :=
      List.findIdx_lt_length_of_exists
        (hexists.imp fun l hl ↦ ⟨hl.1, beq_iff_eq.mpr hl.2⟩)
    have hown : (s.server.lease[s.server.entryOf e.chaddr]).mac = e.chaddr :=
      beq_iff_eq.mp (List.findIdx_getElem (w := hindex))
    have hlast := hinv _ _ (List.getElem?_eq_getElem hindex) (by rw [hown, ← hclient]; exact htaken)
    rw [lastOffer_offered hoffer, ← hlast, hown, ← hclient]
    exact hinv i l hbefore htaken
  · rw [lastOffer_other hclient]
    exact hinv i l hbefore htaken

/-- A request takes the entry of the address that its client has been offered last. -/
theorem HoldsOffer.request {reply : Option DhcpReply} (hinv : HoldsOffer older s)
    (hprocess : dhcpServerProcess s.server e.packet e.stack e.clock = some (reply, s'.server))
    (hconforming : Conforming older ⟨s, e, s'⟩) (hmessage : e.IsMessage dhcpRequest)
    (h : processRequest s.server e.msg e.opt e.chaddr (e.clock 0) = some (reply, s'.server)) :
    HoldsOffer (⟨s, e, s'⟩ :: older) s' := by
  intro i l hentry htaken
  obtain ⟨hreply, hserver⟩ | ⟨yi, hyi, hrequests, hreply, hip', hlease⟩ :=
    processRequest_cases hmessage h
  · have hnone : offered ⟨s, e, s'⟩ = none := by
      rw [offered_of_process hprocess, hreply]
      rfl
    rw [hserver] at hentry ⊢
    rw [lastOffer_none l.mac hnone]
    exact hinv i l hentry htaken
  · have hnone : offered ⟨s, e, s'⟩ = none := by
      have hack : (dhcpReply s.server e.msg dhcpAck yi).msgType ≠ dhcpOffer := by
        show dhcpAck ≠ dhcpOffer
        decide
      rw [offered_of_process hprocess, hreply, Option.bind_some, if_neg hack]
    have hsame : s'.server.address i = s.server.address i := by
      rw [DhcpServer.address, DhcpServer.address, hip']
    rw [lastOffer_none l.mac hnone, hsame]
    rw [hlease] at hentry
    by_cases hindex : yi = i
    · have hlength : i < s.server.lease.length := by
        rw [s.server.size, ← hindex]
        exact hyi
      rw [hindex, List.getElem?_set_self hlength] at hentry
      obtain rfl := Option.some.inj hentry
      rw [← hindex]
      exact hconforming.2 yi hyi hrequests.requested_eq
    · rw [List.getElem?_set_ne hindex] at hentry
      exact hinv i l hentry htaken

/-- A datagram of a client that keeps to the protocol leaves each entry with its offer. -/
theorem HoldsOffer.step (hip : s.server.ip.length = 4) (hinv : HoldsOffer older s)
    (h : dhcpStep s e = some s') (hconforming : Conforming older ⟨s, e, s'⟩) :
    HoldsOffer (⟨s, e, s'⟩ :: older) s' := by
  obtain ⟨reply, hprocess, -⟩ := dhcpStep_cases h
  obtain ⟨hreply, hserver⟩ | ⟨-, hdiscover⟩ | ⟨hmessage, hrequest⟩ := message_cases hprocess
  · intro i l hentry htaken
    have hnone : offered ⟨s, e, s'⟩ = none := by
      rw [offered_of_process hprocess, hreply]
      rfl
    rw [hserver] at hentry ⊢
    rw [lastOffer_none l.mac hnone]
    exact hinv i l hentry htaken
  · exact hinv.discover hip hprocess hdiscover
  · exact hinv.request hprocess hconforming hmessage hrequest

/-- The address of the server stays. -/
theorem dhcpStep_ip (h : dhcpStep s e = some s') : s'.server.ip = s.server.ip := by
  obtain ⟨reply, hprocess, -⟩ := dhcpStep_cases h
  obtain ⟨-, hserver⟩ | ⟨-, hdiscover⟩ | ⟨hmessage, hrequest⟩ := message_cases hprocess
  · rw [hserver]
  · have hip := processDiscover_ip s.server e.msg e.chaddr e.clock
    rwa [hdiscover] at hip
  · obtain ⟨-, hserver⟩ | ⟨_, _, _, _, hip, _⟩ := processRequest_cases hmessage hrequest
    · rw [hserver]
    · exact hip

end Steps

/-- Different entries have different addresses. -/
theorem address_inj {d : DhcpServer} {i j : Nat} (hi : i < dhcpsMaxIp) (hj : j < dhcpsMaxIp)
    (h : d.address i = d.address j) : i = j := by
  have hlast : [(dhcpsBaseIp + i).toUInt8] = [(dhcpsBaseIp + j).toUInt8] :=
    List.append_cancel_left h
  rw [← entry_of_address hi, ← entry_of_address hj, (List.cons.inj hlast).1]

section Runs

variable {ip nm : List UInt8} {trace : List (Taken DhcpState Datagram)} {s : DhcpState}

/-- The server keeps its address. -/
theorem run_ip (h : Run dhcpStep (.init ip nm) trace s) : s.server.ip = ip :=
  h.invariant (fun s ↦ s.server.ip = ip) rfl fun _ _ _ hbefore hstep ↦
    (dhcpStep_ip hstep).trans hbefore

/-- The entries of a run of clients that keep to the protocol. -/
theorem holdsOffer_of_run (hip : ip.length = 4) (h : Run dhcpStep (.init ip nm) trace s)
    (hclients : Along Conforming trace) : HoldsOffer trace s := by
  refine h.invariant_along HoldsOffer hclients ?_ ?_
  · intro i l hentry htaken
    have hfree : l = {} := by
      have hmem : l ∈ List.replicate dhcpsMaxIp ({} : Lease) := List.mem_of_getElem? hentry
      exact List.eq_of_mem_replicate hmem
    rw [hfree] at htaken
    exact absurd rfl htaken
  · intro older before e after hrun hinv hstep hconforming
    exact hinv.step (by rw [run_ip hrun, hip]) hstep hconforming

/-- A client that keeps to the protocol holds at most one entry. -/
theorem entry_unique (hip : ip.length = 4) (h : Run dhcpStep (.init ip nm) trace s)
    (hclients : Along Conforming trace) {i j : Nat} {l l' : Lease}
    (hi : s.server.lease[i]? = some l) (hj : s.server.lease[j]? = some l')
    (hmac : l.mac = l'.mac) (htaken : l.mac ≠ zeroMac) : i = j := by
  have hholds := holdsOffer_of_run hip h hclients
  have hoffer := hholds i l hi htaken
  have hoffer' := hholds j l' hj (hmac ▸ htaken)
  rw [hmac, hoffer'] at hoffer
  have hlt := (List.getElem?_eq_some_iff.mp hi).1
  have hlt' := (List.getElem?_eq_some_iff.mp hj).1
  rw [s.server.size] at hlt hlt'
  exact address_inj hlt hlt' (Option.some.inj hoffer).symm

/-- In every run of clients that request only the address they were offered last, whatever the
order of their messages, an entry that is taken has the address last offered to its client, and no
client holds two entries. -/
theorem one_address_each (hip : ip.length = 4) (h : Run dhcpStep (.init ip nm) trace s)
    (hclients : Along Conforming trace) :
    (∀ (i : Nat) (l : Lease), s.server.lease[i]? = some l → l.mac ≠ zeroMac →
      lastOffer l.mac trace = some (s.server.address i)) ∧
      ∀ (i j : Nat) (l l' : Lease), s.server.lease[i]? = some l →
        s.server.lease[j]? = some l' → l.mac = l'.mac → l.mac ≠ zeroMac → i = j :=
  ⟨holdsOffer_of_run hip h hclients, fun _ _ _ _ hi hj hmac htaken ↦
    entry_unique hip h hclients hi hj hmac htaken⟩

/-! ## When a discovery is answered -/

/-- Each entry that is taken comes from an acknowledgement, and has its expiry. -/
def Granted (older : List (Taken DhcpState Datagram)) (s : DhcpState) : Prop :=
  ∀ i l, s.server.lease[i]? = some l → l.mac ≠ zeroMac →
    ∃ past ∈ older, ∃ start ≤ s.time, acknowledged past = some (l.mac, i, start) ∧
      l.expiry = leaseExpiry start

/-- A datagram leaves entries with their acknowledgements, or gives one with a new
acknowledgement. -/
theorem Granted.step {s s' : DhcpState} {e : Datagram} {older : List (Taken DhcpState Datagram)}
    (hinv : Granted older s) (h : dhcpStep s e = some s') :
    Granted (⟨s, e, s'⟩ :: older) s' := by
  obtain ⟨reply, hprocess, -, htime, hclock, htime'⟩ := dhcpStep_cases h
  have hle : e.clock 0 ≤ s'.time := htime' ▸ clock_le hclock (Nat.zero_le _) (Nat.le_refl _)
  have hkeep : ∀ i l, s.server.lease[i]? = some l → l.mac ≠ zeroMac →
      ∃ past ∈ ⟨s, e, s'⟩ :: older, ∃ start ≤ s'.time,
        acknowledged past = some (l.mac, i, start) ∧ l.expiry = leaseExpiry start := by
    intro i l hentry htaken
    obtain ⟨past, hmem, start, hstart, hack, hexpiry⟩ := hinv i l hentry htaken
    exact ⟨past, List.mem_cons_of_mem _ hmem, start, by omega, hack, hexpiry⟩
  intro i l hentry htaken
  obtain ⟨-, hserver⟩ | ⟨-, hdiscover⟩ | ⟨hmessage, hrequest⟩ := message_cases hprocess
  · rw [hserver] at hentry
    exact hkeep i l hentry htaken
  · have hkept := processDiscover_kept s.server e.msg e.chaddr e.clock
    rw [hdiscover] at hkept
    exact hkeep i l (getElem?_of_kept hkept hentry htaken) htaken
  · obtain ⟨-, hserver⟩ | ⟨yi, hyi, -, hreply, -, hlease⟩ := processRequest_cases hmessage hrequest
    · rw [hserver] at hentry
      exact hkeep i l hentry htaken
    · rw [hlease] at hentry
      by_cases hindex : yi = i
      · have hlength : i < s.server.lease.length := by
          rw [s.server.size, ← hindex]
          exact hyi
        rw [hindex, List.getElem?_set_self hlength] at hentry
        obtain rfl := Option.some.inj hentry
        refine ⟨⟨s, e, s'⟩, List.mem_cons_self, e.clock 0, hle, ?_, rfl⟩
        unfold acknowledged
        rw [hprocess, hreply, ← hindex]
        exact if_pos rfl
      · rw [List.getElem?_set_ne hindex] at hentry
        exact hkeep i l hentry htaken

/-- In every run, the entries that are taken come from acknowledgements. -/
theorem granted_of_run (h : Run dhcpStep (.init ip nm) trace s) : Granted trace s := by
  induction h with
  | refl =>
      intro i l hentry htaken
      have hmem : l ∈ List.replicate dhcpsMaxIp ({} : Lease) := List.mem_of_getElem? hentry
      rw [List.eq_of_mem_replicate hmem] at htaken
      exact absurd rfl htaken
  | step _ hlast ih => exact ih.step hlast

/-- The entry is that of an acknowledgement to another client, whose lease has not ended, or has
ended so long ago that the clock has gone through half of its range since. -/
def Occupied (older : List (Taken DhcpState Datagram)) (taken : Taken DhcpState Datagram)
    (yi : Nat) : Prop :=
  ∃ past ∈ older, ∃ client start, acknowledged past = some (client, yi, start) ∧
    taken.before.server.lease[yi]? = some ⟨client, leaseExpiry start⟩ ∧
    client ≠ zeroMac ∧ client ≠ taken.event.chaddr ∧
    (leaseEnd start < taken.event.clock yi →
      2 ^ 31 ≤ (taken.event.clock yi - leaseEnd start - 1) % 2 ^ 32)

/-- A discovery is answered with an offer, or not at all. -/
theorem offered_eq_none_iff {s s' : DhcpState} {e : Datagram} (h : dhcpStep s e = some s')
    (hmessage : e.IsMessage dhcpDiscover) : offered ⟨s, e, s'⟩ = none ↔
      (processDiscover s.server e.msg e.chaddr e.clock).1 = none := by
  obtain ⟨reply, hprocess, -⟩ := dhcpStep_cases h
  rw [offered_of_process hprocess]
  rw [process_of_message s.server hmessage, if_pos rfl] at hprocess
  have hdiscover := Option.some.inj hprocess
  cases reply with
  | none => rw [hdiscover]; exact ⟨fun _ ↦ rfl, fun _ ↦ rfl⟩
  | some offer =>
      obtain ⟨hoffer, -⟩ := processDiscover_offer _ _ _ _ hdiscover
      have htype : offer.msgType = dhcpOffer := by
        rw [hoffer]
        rfl
      rw [hdiscover, Option.bind_some, if_pos htype]
      exact ⟨fun hnone ↦ absurd hnone (by simp), fun hnone ↦ absurd hnone (by simp)⟩

/-- An acknowledgement is not later than the last reading of the clock. -/
theorem acknowledged_time (h : Run dhcpStep (.init ip nm) trace s) :
    ∀ past ∈ trace, ∀ client yi start, acknowledged past = some (client, yi, start) →
      start ≤ s.time := by
  induction h with
  | refl => simp
  | @step older before after e hrun hlast ih =>
      intro past hmem client yi start hack
      obtain ⟨-, -, -, htime, hclock, htime'⟩ := dhcpStep_cases hlast
      have hle : e.clock 0 ≤ after.time := htime' ▸ clock_le hclock (Nat.zero_le _) (Nat.le_refl _)
      rcases List.mem_cons.mp hmem with rfl | hmem
      · obtain ⟨-, rfl, -⟩ := acknowledged_cases hlast hack
        exact hle
      · exact Nat.le_trans (ih past hmem client yi start hack) (by omega)

/-- The entries are busy when they are those of acknowledgements whose leases seem to run. -/
theorem busy_iff_occupied {after : DhcpState} {e : Datagram}
    (hrun : Run dhcpStep (.init ip nm) trace s) (hstep : dhcpStep s e = some after) :
    (∀ yi l, s.server.lease[yi]? = some l → Busy e.chaddr (e.clock yi) l) ↔
      ∀ yi < dhcpsMaxIp, Occupied trace ⟨s, e, after⟩ yi := by
  obtain ⟨-, -, -, htime, hclock, -⟩ := dhcpStep_cases hstep
  have hlater : ∀ yi < dhcpsMaxIp, s.time ≤ e.clock yi := fun yi hyi ↦
    Nat.le_trans htime (clock_le hclock (Nat.zero_le _) (Nat.le_of_lt hyi))
  constructor
  · intro hbusy yi hyi
    obtain ⟨l, hentry⟩ : ∃ l, s.server.lease[yi]? = some l :=
      ⟨_, List.getElem?_eq_getElem (s.server.size ▸ hyi)⟩
    obtain ⟨hother, htaken, hrunning⟩ := hbusy yi l hentry
    obtain ⟨past, hmem, start, hstart, hack, hexpiry⟩ := granted_of_run hrun yi l hentry htaken
    refine ⟨past, hmem, l.mac, start, hack, ?_, htaken, hother, fun hend ↦ ?_⟩
    · rw [← hexpiry]
      exact hentry
    · have hnot : ¬ l.expired (e.clock yi) = true := Bool.eq_false_iff.mp hrunning
      rw [show l = ⟨l.mac, leaseExpiry start⟩ by rw [← hexpiry],
        expired_iff (Nat.le_trans hstart (hlater yi hyi))] at hnot
      exact Nat.le_of_not_lt fun hhalf ↦ hnot ⟨hend, hhalf⟩
  · intro hoccupied yi l hentry
    have hyi : yi < dhcpsMaxIp := by
      rw [← s.server.size]
      exact (List.getElem?_eq_some_iff.mp hentry).1
    obtain ⟨past, hmem, client, start, hack, hsame, htaken, hother, hhalf⟩ := hoccupied yi hyi
    obtain rfl := Option.some.inj (hentry.symm.trans hsame)
    have hstart := acknowledged_time hrun past hmem client yi start hack
    refine ⟨hother, htaken, Bool.eq_false_iff.mpr fun hexpired ↦ ?_⟩
    obtain ⟨hend, hfirst⟩ :=
      (expired_iff (Nat.le_trans hstart (hlater yi hyi))).mp hexpired
    exact absurd (hhalf hend) (Nat.not_le.mpr hfirst)

/-- In every run, a discovery stays without an answer exactly when each of the eight entries is that
of an acknowledgement to another client whose lease has not ended, or has ended and seems to run
again. Nothing changes then. -/
theorem unanswered_iff (h : Run dhcpStep (.init ip nm) trace s) :
    Along (fun older taken ↦ taken.event.IsMessage dhcpDiscover →
      (offered taken = none ↔ ∀ yi < dhcpsMaxIp, Occupied older taken yi) ∧
        (offered taken = none → taken.after.server.lease = taken.before.server.lease)) trace := by
  induction h with
  | refl => trivial
  | @step older before after e hrun hlast ih =>
      refine ⟨fun hmessage ↦ ⟨?_, fun hnone ↦ ?_⟩, ih⟩
      · rw [offered_eq_none_iff hlast hmessage, processDiscover_none_iff]
        exact busy_iff_occupied hrun hlast
      · obtain ⟨reply, hprocess, -⟩ := dhcpStep_cases hlast
        rw [process_of_message before.server hmessage, if_pos rfl] at hprocess
        have hlease := processDiscover_none before.server e.msg e.chaddr e.clock
          ((offered_eq_none_iff hlast hmessage).mp hnone)
        rwa [Option.some.inj hprocess] at hlease

/-- The clients of the entries that are taken have sent a message. -/
theorem mem_clients_of_run (h : Run dhcpStep (.init ip nm) trace s) {clients : List Mac}
    (hclients : ∀ taken ∈ trace, taken.event.chaddr ∈ clients) {i : Nat} {l : Lease}
    (hentry : s.server.lease[i]? = some l) (htaken : l.mac ≠ zeroMac) : l.mac ∈ clients := by
  obtain ⟨past, hmem, start, _, hack, _⟩ := granted_of_run h i l hentry htaken
  obtain ⟨-, hstep⟩ := h.of_mem hmem
  obtain ⟨hclient, -⟩ := acknowledged_cases hstep hack
  rw [hclient]
  exact hclients past hmem

/-- In a run of clients that keep to the protocol the entries are those of different clients. -/
theorem macs_nodup (hip : ip.length = 4) (h : Run dhcpStep (.init ip nm) trace s)
    (hconforming : Along Conforming trace)
    (htaken : ∀ (i : Nat) (l : Lease), s.server.lease[i]? = some l → l.mac ≠ zeroMac) :
    (s.server.lease.map Lease.mac).Nodup := by
  rw [List.nodup_iff_getElem?_ne_getElem?]
  intro i j hij hj hsame
  rw [List.length_map] at hj
  have hentry := List.getElem?_eq_getElem (Nat.lt_trans hij hj)
  have hentry' := List.getElem?_eq_getElem hj
  rw [List.getElem?_map, List.getElem?_map, hentry, hentry'] at hsame
  have hindex := entry_unique hip h hconforming hentry hentry' (Option.some.inj hsame)
    (htaken i _ hentry)
  omega

/-- In every run of at most eight clients that request only the address they were offered last,
every discovery is answered. -/
theorem discover_answered (hip : ip.length = 4) (h : Run dhcpStep (.init ip nm) trace s)
    (hconforming : Along Conforming trace) {clients : List Mac}
    (hcount : clients.length ≤ dhcpsMaxIp)
    (hclients : ∀ taken ∈ trace, taken.event.chaddr ∈ clients) :
    ∀ taken ∈ trace, taken.event.IsMessage dhcpDiscover →
      ∃ addr, offered taken = some (taken.event.chaddr, addr) := by
  induction h with
  | refl => simp
  | @step older before after e hrun hlast ih =>
      intro taken hmem hmessage
      have hearlier : ∀ taken ∈ older, taken.event.chaddr ∈ clients := fun taken hmem ↦
        hclients taken (List.mem_cons_of_mem _ hmem)
      rcases List.mem_cons.mp hmem with rfl | hmem
      · cases hoffer : offered ⟨before, e, after⟩ with
        | some offer =>
            have hclient := offered_client hoffer
            exact ⟨offer.2, congrArg some (Prod.ext hclient rfl)⟩
        | none =>
            -- the eight entries are those of eight other clients
            have hbusy := (processDiscover_none_iff _ _ _ _).mp
              ((offered_eq_none_iff hlast hmessage).mp hoffer)
            have hnodup := macs_nodup hip hrun hconforming.2 fun i l hentry ↦ (hbusy i l hentry).2.1
            have hother : e.chaddr ∉ before.server.lease.map Lease.mac := by
              intro hmem
              obtain ⟨l, hl, hmac⟩ := List.mem_map.mp hmem
              obtain ⟨i, hentry⟩ := List.mem_iff_getElem?.mp hl
              exact (hbusy i l hentry).1 hmac
            have hsubset : e.chaddr :: before.server.lease.map Lease.mac ⊆ clients := by
              intro mac hmac
              rcases List.mem_cons.mp hmac with rfl | hmac
              · exact hclients _ List.mem_cons_self
              · obtain ⟨l, hl, rfl⟩ := List.mem_map.mp hmac
                obtain ⟨i, hentry⟩ := List.mem_iff_getElem?.mp hl
                exact mem_clients_of_run hrun hearlier hentry (hbusy i l hentry).2.1
            have hlength := (List.nodup_cons.mpr ⟨hother, hnodup⟩).length_le_of_subset hsubset
            rw [List.length_cons, List.length_map, before.server.size] at hlength
            omega
      · exact ih hconforming.2 hearlier taken hmem hmessage

end Runs

/-! ## Runs of two and of nine clients -/

/-- A client takes the address that it is offered, and a second one asks for one. -/
def twoClients : List Datagram :=
  [clientMessage [2, 0, 0, 0, 0, 1] dhcpDiscover 0,
    clientMessage [2, 0, 0, 0, 0, 1] dhcpRequest 10,
    clientMessage [2, 0, 0, 0, 0, 2] dhcpDiscover 20]

/-- One of two clients has its address, and the other one an offer. -/
theorem one_address_each_two : ∃ (trace : List (Taken DhcpState Datagram)) (s : DhcpState),
    Run dhcpStep (.init [192, 168, 4, 1] [255, 255, 255, 0]) trace s ∧
      s.server.lease[0]? = some (⟨[2, 0, 0, 0, 0, 1], leaseExpiry 10⟩ : Lease) ∧
      lastOffer [2, 0, 0, 0, 0, 1] trace = some [192, 168, 4, 16] := by
  obtain ⟨trace, s, hrun, htest⟩ := exists_run_of_record dhcpStep
    (.init [192, 168, 4, 1] [255, 255, 255, 0]) twoClients
    (fun (trace : List (Taken DhcpState Datagram)) (s : DhcpState) ↦
      decide (s.server.lease[0]? = some (⟨[2, 0, 0, 0, 0, 1], leaseExpiry 10⟩ : Lease)) &&
        decide (s.server.address 0 = [192, 168, 4, 16]) && decide (Along Conforming trace))
    (by decide +kernel)
  simp only [Bool.and_eq_true, decide_eq_true_eq] at htest
  obtain ⟨⟨hentry, haddr⟩, hconforming⟩ := htest
  have hoffer := (one_address_each rfl hrun hconforming).1 0 _ hentry (by decide)
  exact ⟨trace, s, hrun, hentry, hoffer.trans (congrArg some haddr)⟩

/-- Both discoveries of two clients are answered. -/
theorem discover_answered_two : ∃ (trace : List (Taken DhcpState Datagram)) (s : DhcpState),
    Run dhcpStep (.init [192, 168, 4, 1] [255, 255, 255, 0]) trace s ∧ trace.length = 3 ∧
      ∀ taken ∈ trace, taken.event.IsMessage dhcpDiscover →
        ∃ addr, offered taken = some (taken.event.chaddr, addr) := by
  obtain ⟨trace, s, hrun, htest⟩ := exists_run_of_record dhcpStep
    (.init [192, 168, 4, 1] [255, 255, 255, 0]) twoClients
    (fun (trace : List (Taken DhcpState Datagram)) (_ : DhcpState) ↦
      decide (trace.length = 3) && decide (Along Conforming trace) &&
        trace.all fun taken ↦
          decide (taken.event.chaddr ∈ [[2, 0, 0, 0, 0, 1], [2, 0, 0, 0, 0, 2]]))
    (by decide +kernel)
  simp only [Bool.and_eq_true, decide_eq_true_eq, List.all_eq_true] at htest
  obtain ⟨⟨hlength, hconforming⟩, hclients⟩ := htest
  exact ⟨trace, s, hrun, hlength, discover_answered rfl hrun hconforming (by decide) hclients⟩

/-- A message of one of nine clients. A request is for the address with the number of the client. -/
def numbered (client : Nat) (type : UInt8) : Datagram :=
  let e := clientMessage [2, 0, 0, 0, 0, client.toUInt8] type client
  { e with packet := e.packet.set 248 (dhcpsBaseIp + client).toUInt8 }

/-- The discovery of a ninth client finds all entries taken. -/
theorem unanswered_iff_nine : ∃ (trace : List (Taken DhcpState Datagram)) (s : DhcpState)
    (last : Taken DhcpState Datagram),
    Run dhcpStep (.init [192, 168, 4, 1] [255, 255, 255, 0]) (last :: trace) s ∧
      last.event.chaddr = [2, 0, 0, 0, 0, 8] ∧ ∀ yi < dhcpsMaxIp, Occupied trace last yi := by
  obtain ⟨trace, s, hrun, htest⟩ := exists_run_of_record dhcpStep
    (.init [192, 168, 4, 1] [255, 255, 255, 0])
    ((List.range dhcpsMaxIp).map (numbered · dhcpRequest) ++ [numbered 8 dhcpDiscover])
    (fun (trace : List (Taken DhcpState Datagram)) (_ : DhcpState) ↦
      match trace with
      | [] => false
      | last :: _ =>
          decide (last.event.chaddr = [2, 0, 0, 0, 0, 8] ∧ (offered last).isNone ∧
            dhcpMinSize ≤ last.event.packet.length ∧
            optFind last.event.opt dhcpOptMsgType = some (some 0) ∧
            last.event.opt[2]? = some dhcpDiscover))
    (by decide +kernel)
  cases trace with
  | nil => exact absurd htest (by simp)
  | cons last older =>
      simp only [decide_eq_true_eq, Option.isNone_iff_eq_none] at htest
      obtain ⟨hclient, hnone, hsize, hfind, htype⟩ := htest
      have hiff := ((unanswered_iff hrun).1 ⟨hsize, 0, hfind, htype⟩).1
      exact ⟨older, s, last, hrun, hclient, hiff.mp hnone⟩

end DirtieNode.AccessPoint
