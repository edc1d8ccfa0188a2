import Mathlib.Data.List.Forall2
import DirtieNode.AccessPoint.Dhcp
import DirtieNode.Library.Transition

/-!
# Leases are exclusive

An entry of the lease table leaves its client only when `DHCPDISCOVER` finds it expired. The expiry
is rounded up to the next multiple of 65536 ms, and the signed difference is negative only after
that, since a lease is far shorter than half of the range of the clock.
-/

namespace DirtieNode.AccessPoint

open CString Transition

/-- The lease time in milliseconds. -/
def leaseTimeMs : Nat :=
  defaultLeaseTimeS * 1000

/-- A lease that was given at a time counts as expired only when its time is over. -/
theorem over_of_expired {mac : Mac} {start now : Nat} (hstart : start ≤ now)
    (h : Lease.expired ⟨mac, leaseExpiry start⟩ now = true) : start + leaseTimeMs < now := by
  have hexpiry : (leaseExpiry start).toNat =
      (start % 2 ^ 32 + defaultLeaseTimeS * 1000) % 2 ^ 32 / 2 ^ 16 := by
    unfold leaseExpiry ticksMs
    rw [UInt16.toNat_ofNat']
    omega
  simp only [Lease.expired, hexpiry, ticksMs, decide_eq_true_eq] at h
  unfold leaseTimeMs
  unfold defaultLeaseTimeS at *
  omega

/-- A datagram on its way to the server: its bytes, what is on the stack from where it is copied to,
and the times of the readings of the clock. -/
structure Datagram where
  packet : List UInt8
  stack : List UInt8
  stack_size : dhcpMsgSize ≤ stack.length
  clock : Nat → Nat

/-- The first bytes of the client hardware address in the copied message. -/
def Datagram.chaddr (e : Datagram) : Mac :=
  let len := min e.packet.length dhcpMsgSize
  ((e.packet.take len ++ e.stack.drop len).drop chaddrOffset).take macLen

/-- The server, and the last time at which it has read the clock. -/
structure DhcpState where
  server : DhcpServer
  time : Nat := 0

/-- The transition function: a datagram is processed after the ones before it. -/
def dhcpStep (s : DhcpState) (e : Datagram) : Option DhcpState :=
  if s.time ≤ e.clock 0 ∧ ∀ i < dhcpsMaxIp, e.clock i ≤ e.clock (i + 1) then
    (dhcpServerProcess s.server e.packet e.stack e.clock).map fun result ↦
      ⟨result.2, e.clock dhcpsMaxIp⟩
  else none

/-- The client, the entry and the time of an acknowledgement. -/
def acknowledged (taken : Taken DhcpState Datagram) : Option (Mac × Nat × Nat) :=
  match dhcpServerProcess taken.before.server taken.event.packet taken.event.stack
      taken.event.clock with
  | some (some reply, _) =>
      if reply.msgType = dhcpAck then some (taken.event.chaddr, reply.yi, taken.event.clock 0)
      else none
  | _ => none

/-- An address that is acknowledged has not been acknowledged to another client within the lease
time. -/
def Exclusive (older : List (Taken DhcpState Datagram)) (taken : Taken DhcpState Datagram) : Prop :=
  ∀ client yi now, acknowledged taken = some (client, yi, now) →
    ∀ past ∈ older, ∀ other start, acknowledged past = some (other, yi, start) →
      other ≠ client → start + leaseTimeMs < now

/-! ## What a datagram does to the table -/

/-- The entry is as it was, or it has been cleared when its lease was over. -/
def Kept (clock : Nat → Nat) (l l' : Lease) : Prop :=
  l' = l ∨ ∃ i < dhcpsMaxIp, l.expired (clock i) = true ∧ l' = { l with mac := zeroMac }

/-- The loop of a discovery keeps the entries, or clears those that are over. -/
theorem discoverLoop_kept (chaddr : Mac) (clock : Nat → Nat) (i yi : Nat) (lease : List Lease)
    (hbound : i + lease.length ≤ dhcpsMaxIp) :
    List.Forall₂ (Kept clock) lease (discoverLoop chaddr clock i yi lease).2 := by
  have hrefl : ∀ rest : List Lease, List.Forall₂ (Kept clock) rest rest := fun rest ↦
    List.forall₂_same.mpr fun l _ ↦ .inl rfl
  induction lease generalizing i yi with
  | nil => exact .nil
  | cons l rest ih =>
      have hrest : i + 1 + rest.length ≤ dhcpsMaxIp := by
        simp only [List.length_cons] at hbound
        omega
      unfold discoverLoop
      split
      · -- the search ends at the entry of the client
        exact hrefl _
      · split
        · split
          · -- nothing has been found so far, and the lease of this entry is over
            rename_i hexpired
            have hi : i < dhcpsMaxIp := by
              simp only [List.length_cons] at hbound
              omega
            exact .cons (.inr ⟨i, hi, hexpired, rfl⟩) (ih _ _ hrest)
          · exact .cons (.inl rfl) (ih _ _ hrest)
        · exact .cons (.inl rfl) (ih _ _ hrest)

/-- What a datagram does to the table: nothing, or a discovery clears entries, or a request renews
or takes an entry. -/
inductive TableChange (d : DhcpServer) (chaddr : Mac) (clock : Nat → Nat) :
    Option DhcpReply → DhcpServer → Prop
  | none : TableChange d chaddr clock none d
  | discover {reply : Option DhcpReply} {d' : DhcpServer}
      (hreply : ∀ r, reply = some r → r.msgType = dhcpOffer)
      (hkept : List.Forall₂ (Kept clock) d.lease d'.lease) : TableChange d chaddr clock reply d'
  | request {reply : DhcpReply} {d' : DhcpServer} {l : Lease} (htype : reply.msgType = dhcpAck)
      (hentry : d.lease[reply.yi]? = some l) (hfree : l.mac = chaddr ∨ l.mac = zeroMac)
      (hlease : d'.lease = d.lease.set reply.yi ⟨chaddr, leaseExpiry (clock 0)⟩) :
      TableChange d chaddr clock (some reply) d'

/-- A discovery clears entries, and takes none. -/
theorem processDiscover_change (d : DhcpServer) (msg : List UInt8) (chaddr : Mac)
    (clock : Nat → Nat) : TableChange d chaddr clock (processDiscover d msg chaddr clock).1
      (processDiscover d msg chaddr clock).2 := by
  have hkept := discoverLoop_kept chaddr clock 0 dhcpsMaxIp d.lease (by rw [d.size]; omega)
  unfold processDiscover
  dsimp only
  split
  · exact .discover (by simp) hkept
  · refine .discover (fun r hr ↦ ?_) hkept
    obtain rfl := Option.some.inj hr
    rfl

/-- A request renews or takes an entry, or changes nothing. -/
theorem processRequest_change {d d' : DhcpServer} {msg opt : List UInt8} {chaddr : Mac}
    {clock : Nat → Nat} {reply : Option DhcpReply}
    (h : processRequest d msg opt chaddr (clock 0) = some (reply, d')) :
    TableChange d chaddr clock reply d' := by
  unfold processRequest at h
  simp only [bind, Option.bind_eq_some_iff] at h
  obtain ⟨found, _, h⟩ := h
  cases found with
  | none =>
      obtain ⟨rfl, rfl⟩ := Prod.mk.inj (Option.some.inj h)
      exact .none
  | some o =>
      simp only [Option.bind_eq_some_iff] at h
      obtain ⟨net, _, h⟩ := h
      split at h
      · obtain ⟨rfl, rfl⟩ := Prod.mk.inj (Option.some.inj h)
        exact .none
      · simp only [Option.bind_eq_some_iff] at h
        obtain ⟨last, _, h⟩ := h
        split at h
        · obtain ⟨rfl, rfl⟩ := Prod.mk.inj (Option.some.inj h)
          exact .none
        · simp only [Option.bind_eq_some_iff] at h
          obtain ⟨l, hentry, h⟩ := h
          split at h
          · rename_i hfree
            obtain ⟨rfl, rfl⟩ := Prod.mk.inj (Option.some.inj h)
            exact .request rfl hentry hfree rfl
          · obtain ⟨rfl, rfl⟩ := Prod.mk.inj (Option.some.inj h)
            exact .none

/-- Each datagram does one of these things to the table. -/
theorem process_cases {d d' : DhcpServer} {e : Datagram} {reply : Option DhcpReply}
    (h : dhcpServerProcess d e.packet e.stack e.clock = some (reply, d')) :
    TableChange d e.chaddr e.clock reply d' := by
  unfold dhcpServerProcess at h
  split at h
  · obtain ⟨rfl, rfl⟩ := Prod.mk.inj (Option.some.inj h)
    exact .none
  · simp only [bind, Option.bind_eq_some_iff] at h
    obtain ⟨found, _, h⟩ := h
    cases found with
    | none =>
        obtain ⟨rfl, rfl⟩ := Prod.mk.inj (Option.some.inj h)
        exact .none
    | some msgtype =>
        simp only [Option.bind_eq_some_iff] at h
        obtain ⟨type, _, h⟩ := h
        split at h
        · obtain ⟨rfl, rfl⟩ := Prod.mk.inj (Option.some.inj h)
          exact processDiscover_change ..
        · split at h
          · exact processRequest_change h
          · obtain ⟨rfl, rfl⟩ := Prod.mk.inj (Option.some.inj h)
            exact .none

/-! ## Runs -/

/-- The lease of an acknowledgement is over, or its entry is still that of the client, with the
expiry of this acknowledgement or of a later one. -/
def Held (client : Mac) (yi start : Nat) (s : DhcpState) : Prop :=
  start + leaseTimeMs < s.time ∨ ∃ last, start ≤ last ∧ last ≤ s.time ∧
    s.server.lease[yi]? = some ⟨client, leaseExpiry last⟩

section Steps

variable {s s' : DhcpState} {e : Datagram}

/-- A step is one datagram, at a time that is not before the last one. -/
theorem dhcpStep_cases (h : dhcpStep s e = some s') :
    ∃ reply, dhcpServerProcess s.server e.packet e.stack e.clock = some (reply, s'.server) ∧
      TableChange s.server e.chaddr e.clock reply s'.server ∧ s.time ≤ e.clock 0 ∧
      (∀ i < dhcpsMaxIp, e.clock i ≤ e.clock (i + 1)) ∧ s'.time = e.clock dhcpsMaxIp := by
  unfold dhcpStep at h
  split at h
  · rename_i hclock
    obtain ⟨⟨reply, d'⟩, hprocess, rfl⟩ := Option.map_eq_some_iff.mp h
    exact ⟨reply, hprocess, process_cases hprocess, hclock.1, hclock.2, rfl⟩
  · simp at h

/-- The readings of the clock in one call do not go back. -/
theorem clock_le {clock : Nat → Nat} (h : ∀ i < dhcpsMaxIp, clock i ≤ clock (i + 1)) {i j : Nat}
    (hij : i ≤ j) (hj : j ≤ dhcpsMaxIp) : clock i ≤ clock j := by
  induction hij with
  | refl => exact Nat.le_refl _
  | step _ ih => exact Nat.le_trans (ih (by omega)) (h _ (by omega))

/-- An acknowledgement has found its entry free or taken by the same client. -/
theorem acknowledged_cases {client : Mac} {yi now : Nat} (h : dhcpStep s e = some s')
    (hack : acknowledged ⟨s, e, s'⟩ = some (client, yi, now)) :
    client = e.chaddr ∧ now = e.clock 0 ∧
      ∃ l, s.server.lease[yi]? = some l ∧ (l.mac = client ∨ l.mac = zeroMac) ∧
        s'.server.lease[yi]? = some ⟨client, leaseExpiry now⟩ := by
  obtain ⟨reply, hprocess, hchange, -⟩ := dhcpStep_cases h
  unfold acknowledged at hack
  rw [hprocess] at hack
  generalize hd' : s'.server = d' at hchange
  cases hchange with
  | none => simp at hack
  | discover hreply _ =>
      cases reply with
      | none => simp at hack
      | some r =>
          have hoffer : r.msgType = dhcpOffer := hreply r rfl
          simp [hoffer, dhcpOffer, dhcpAck] at hack
  | @request r _ l htype hentry hfree hlease =>
      simp only [htype, if_true, Option.some.injEq, Prod.mk.injEq] at hack
      obtain ⟨rfl, rfl, rfl⟩ := hack
      refine ⟨rfl, rfl, l, hentry, hfree, ?_⟩
      rw [hlease, List.getElem?_set_self (List.getElem?_eq_some_iff.mp hentry).1]

/-- A datagram of any client keeps what an earlier acknowledgement holds. -/
theorem Held.step {client : Mac} {yi start : Nat} (hclient : client ≠ zeroMac)
    (hheld : Held client yi start s) (h : dhcpStep s e = some s') : Held client yi start s' := by
  obtain ⟨reply, _, hchange, htime, hclock, htime'⟩ := dhcpStep_cases h
  have hle : e.clock 0 ≤ s'.time := htime' ▸ clock_le hclock (Nat.zero_le _) (Nat.le_refl _)
  rcases hheld with hover | ⟨last, hstart, hlast, hentry⟩
  · exact .inl (by omega)
  generalize hd' : s'.server = d' at hchange
  cases hchange with
  | none => exact .inr ⟨last, hstart, by omega, by rw [hd', hentry]⟩
  | discover _ hkept =>
      have hyi := (List.getElem?_eq_some_iff.mp hentry).1
      obtain ⟨l', hentry'⟩ : ∃ l', d'.lease[yi]? = some l' :=
        ⟨_, List.getElem?_eq_getElem (hkept.length_eq ▸ hyi)⟩
      have hone : Kept e.clock ⟨client, leaseExpiry last⟩ l' := by
        obtain ⟨_, rfl⟩ := List.getElem?_eq_some_iff.mp hentry'
        have := hkept.get hyi (hkept.length_eq ▸ hyi)
        rwa [List.get_eq_getElem, (List.getElem?_eq_some_iff.mp hentry).2] at this
      rcases hone with rfl | ⟨i, hi, hexpired, -⟩
      · exact .inr ⟨last, hstart, by omega, by rw [hd', hentry']⟩
      · -- the entry has been cleared, so its lease was over
        have hfirst := clock_le hclock (Nat.zero_le i) (Nat.le_of_lt hi)
        have hend := clock_le hclock (Nat.le_of_lt hi) (Nat.le_refl _)
        have := over_of_expired (by omega) hexpired
        exact .inl (by omega)
  | @request r _ l _ hfound hfree hlease =>
      by_cases hyi : r.yi = yi
      · rw [hyi, hentry] at hfound
        obtain rfl := Option.some.inj hfound
        -- the entry is not free, so the request is one of the same client
        have hsame : client = e.chaddr := hfree.resolve_right hclient
        refine .inr ⟨e.clock 0, by omega, hle, ?_⟩
        rw [hd', hlease, hyi, hsame,
          List.getElem?_set_self (List.getElem?_eq_some_iff.mp hentry).1]
      · exact .inr ⟨last, hstart, by omega, by rw [hd', hlease, List.getElem?_set_ne hyi, hentry]⟩

end Steps

/-- The state after `dhcp_server_init`. -/
def DhcpState.init (ip nm : List UInt8) : DhcpState :=
  { server := dhcpServerInit ip nm }

/-- All that has been acknowledged is held. -/
def AllHeld (older : List (Taken DhcpState Datagram)) (s : DhcpState) : Prop :=
  ∀ past ∈ older, ∀ client yi start, acknowledged past = some (client, yi, start) →
    client ≠ zeroMac ∧ Held client yi start s

/-- In every run of clients with addresses of their own, an address passes from one to another only
when more than the lease time has gone by since its last acknowledgement. -/
theorem lease_exclusive {ip nm : List UInt8} {trace : List (Taken DhcpState Datagram)}
    {s : DhcpState} (h : Run dhcpStep (.init ip nm) trace s)
    (hclients : ∀ taken ∈ trace, taken.event.chaddr ≠ zeroMac) : Along Exclusive trace := by
  suffices hall : AllHeld trace s ∧ Along Exclusive trace from hall.2
  induction h with
  | refl => exact ⟨by simp [AllHeld], trivial⟩
  | @step older before after e hrun hlast ih =>
      obtain ⟨hheld, halong⟩ := ih fun taken hmem ↦ hclients taken (List.mem_cons_of_mem _ hmem)
      have hmac : e.chaddr ≠ zeroMac := hclients _ List.mem_cons_self
      obtain ⟨-, -, -, htime, hclock, htime'⟩ := dhcpStep_cases hlast
      refine ⟨fun past hmem client yi start hack ↦ ?_, fun client yi now hack past hmem other start
        hpast hne ↦ ?_, halong⟩
      · rcases List.mem_cons.mp hmem with rfl | hmem
        · obtain ⟨rfl, rfl, _, _, _, hentry⟩ := acknowledged_cases hlast hack
          have hle := clock_le hclock (Nat.zero_le _) (Nat.le_refl _)
          exact ⟨hmac, .inr ⟨_, Nat.le_refl _, htime' ▸ hle, hentry⟩⟩
        · obtain ⟨hclient, hpast⟩ := hheld past hmem client yi start hack
          exact ⟨hclient, hpast.step hclient hlast⟩
      · obtain ⟨rfl, rfl, l, hentry, hfree, -⟩ := acknowledged_cases hlast hack
        obtain ⟨hother, hpast⟩ := hheld past hmem other yi start hpast
        rcases hpast with hover | ⟨last, _, _, hkept⟩
        · exact Nat.lt_of_lt_of_le hover htime
        · -- the entry is still that of the other client, so the request has been refused
          rw [hkept] at hentry
          obtain rfl := Option.some.inj hentry
          rcases hfree with hsame | hzero
          · exact absurd hsame hne
          · exact absurd hzero hother

/-- A message of a client with a type, and the first address as the requested one. -/
def clientMessage (mac : Mac) (type : UInt8) (now : Nat) : Datagram where
  packet := List.replicate chaddrOffset 0 ++ mac ++ List.replicate 206 0 ++
    [dhcpOptMsgType, 1, type, dhcpOptRequestedIp, 4, 192, 168, 4, 16, dhcpOptEnd]
  stack := List.replicate dhcpMsgSize 0
  stack_size := by rw [List.length_replicate]
  clock := fun _ ↦ now

/-- A day and two minutes after the first client, a second one gets its address. -/
theorem lease_exclusive_two_clients : ∃ (trace : List (Taken DhcpState Datagram)) (s : DhcpState),
    Run dhcpStep (.init [192, 168, 4, 1] [255, 255, 255, 0]) trace s ∧
      trace.map acknowledged =
        [some ([2, 0, 0, 0, 0, 2], 0, 86520000), none, some ([2, 0, 0, 0, 0, 1], 0, 0)] ∧
      Along Exclusive trace := by
  obtain ⟨trace, s, hrun, htest⟩ := exists_run_of_record dhcpStep
    (.init [192, 168, 4, 1] [255, 255, 255, 0])
    [clientMessage [2, 0, 0, 0, 0, 1] dhcpRequest 0,
      clientMessage [2, 0, 0, 0, 0, 2] dhcpDiscover 86510000,
      clientMessage [2, 0, 0, 0, 0, 2] dhcpRequest 86520000]
    (fun trace _ ↦ decide (trace.map acknowledged =
        [some ([2, 0, 0, 0, 0, 2], 0, 86520000), none, some ([2, 0, 0, 0, 0, 1], 0, 0)]) &&
      trace.all fun taken ↦ taken.event.chaddr != zeroMac) (by decide +kernel)
  simp only [Bool.and_eq_true, decide_eq_true_eq, List.all_eq_true, bne_iff_ne] at htest
  exact ⟨trace, s, hrun, htest.1, lease_exclusive hrun htest.2⟩

end DirtieNode.AccessPoint
