import DirtieNode.Util.Poll

/-!
# The wall clock between two synchronisations

A valid response stores its Unix second with the uptime in milliseconds, which the SDK gives as an
unsigned 32-bit number. `get_current_epoch` adds the 64-bit difference to the uptime of the call, so
the clock is right until that number wraps.
-/

namespace DirtieNode.Util

open Transition

/-- The uptime in milliseconds of an `absolute_time_t`, which counts microseconds. -/
def uptimeMs (t : UInt64) : Nat :=
  t.toNat / 1000

/-- `to_ms_since_boot`, which returns an unsigned 32-bit number. -/
def toMsSinceBoot (t : UInt64) : Nat :=
  uptimeMs t % 2 ^ 32

/-- `ntp_recv` accepts the packet. -/
def NtpPacket.Valid (p : NtpPacket) (state : Ntp) : Prop :=
  p.addr = state.serverAddress ∧ p.port = ntpPort ∧ p.totLen = ntpMsgLen ∧ p.mode = 4 ∧
    p.stratum ≠ 0

/-- The packet has the NTP timestamp of a Unix second. -/
def NtpPacket.Stamped (p : NtpPacket) (second : Nat) : Prop :=
  p.secondsSince1900 = (second + ntpDelta) % 2 ^ 32

/-- The step is a valid response. -/
def Response (taken : Taken Client ClientEvent) : Prop :=
  ∃ now nowMs p, taken.event = .recv now nowMs p ∧ p.Valid taken.before.ntp

/-- The state is synchronised to a Unix second at an uptime. -/
structure Synced (state : Ntp) (second : Nat) (t : UInt64) : Prop where
  synced : state.synced = true
  epochSecs : state.epochSecs = second
  hwRefMs : state.hwRefMs = toMsSinceBoot t

section Sync

variable {c c' : Client} {e : ClientEvent} {p : NtpPacket} {second : Nat} {t : UInt64}

/-- The end of an attempt keeps what is stored. -/
theorem Synced.syncDone {state : Ntp} (h : Synced state second t) (now : Nat) :
    Synced (ntpSyncDone now state) second t := by
  obtain ⟨hsynced, hsecs, href⟩ := h
  unfold ntpSyncDone
  split <;> exact ⟨hsynced, hsecs, href⟩

/-- The 32-bit subtraction takes the era change back. -/
theorem synced_recv {state : Ntp} (hvalid : p.Valid state) (hsecond : second < 2 ^ 32)
    (hstamp : p.Stamped second) (t : UInt64) :
    Synced (ntpRecv t.toNat (toMsSinceBoot t) p state) second t := by
  have hdecode : (p.secondsSince1900 + 2 ^ 32 - ntpDelta) % 2 ^ 32 = second := by
    rw [show p.secondsSince1900 = _ from hstamp]
    unfold ntpDelta
    omega
  unfold NtpPacket.Valid at hvalid
  unfold ntpRecv
  rw [if_pos hvalid, hdecode]
  exact Synced.syncDone ⟨rfl, rfl, rfl⟩ t.toNat

/-- Only a valid response changes what has been stored. -/
theorem Synced.step (h : Synced c.ntp second t) (hstep : clientStep c e = some c')
    (hnone : ¬ Response ⟨c, e, c'⟩) : Synced c'.ntp second t := by
  have hfields : ∀ {state : Ntp}, state.synced = c.ntp.synced → state.epochSecs = c.ntp.epochSecs →
      state.hwRefMs = c.ntp.hwRefMs → Synced state second t := fun hsynced hsecs href ↦
    ⟨hsynced.trans h.synced, hsecs.trans h.epochSecs, href.trans h.hwRefMs⟩
  cases clientStep_cases hstep with
  | waits => exact h
  | arms | finds | asks | marks | returns => exact hfields rfl rfl rfl
  | fails | rings => exact h.syncDone _
  | @receives now nowMs p =>
      -- a packet that fails the checks ends the attempt and is not read
      have hinvalid : ¬ p.Valid c.ntp := fun hvalid ↦ hnone ⟨now, nowMs, p, rfl, hvalid⟩
      unfold NtpPacket.Valid at hinvalid
      show Synced (ntpRecv now nowMs p c.ntp) second t
      unfold ntpRecv
      rw [if_neg hinvalid]
      exact h.syncDone now
  | @answers now ipaddr =>
      cases ipaddr with
      | none => exact h.syncDone now
      | some address => exact hfields rfl rfl rfl

end Sync

/-! ## Reading the clock -/

/-- The difference of two 32-bit uptimes is the time in between unless the counter has wrapped. -/
theorem epoch_of_synced {state : Ntp} {second : Nat} {t t' : UInt64} (h : Synced state second t)
    (hsecond : second < 2 ^ 32) (ht : t ≤ t') :
    getCurrentEpoch (toMsSinceBoot t') (some state) =
        (.ok, some (second * 1000 + (uptimeMs t' - uptimeMs t))) ↔
      uptimeMs t' / 2 ^ 32 = uptimeMs t / 2 ^ 32 := by
  have hle : uptimeMs t ≤ uptimeMs t' := Nat.div_le_div_right (UInt64.le_iff_toNat_le.mp ht)
  have hbound : uptimeMs t' < 2 ^ 64 := by
    have := t'.toNat_lt
    unfold uptimeMs
    omega
  simp only [getCurrentEpoch, h.synced, h.epochSecs, h.hwRefMs, Bool.not_true, Bool.false_eq_true,
    if_false, Prod.mk.injEq, Option.some.injEq, true_and, toMsSinceBoot]
  -- what is left is arithmetic of the two uptimes modulo `2 ^ 32`
  generalize uptimeMs t = start at *
  generalize uptimeMs t' = stop at *
  omega

/-- After a valid response and until the next one, the clock is exact to the millisecond exactly as
long as the 32-bit counter of milliseconds has not wrapped. -/
theorem clock_exact_iff {c synced later : Client} {p : NtpPacket} {second : Nat} {t t' : UInt64}
    {trace : List (Taken Client ClientEvent)} (hsecond : second < 2 ^ 32)
    (hstamp : p.Stamped second) (hvalid : p.Valid c.ntp)
    (hrecv : clientStep c (.recv t.toNat (toMsSinceBoot t) p) = some synced)
    (hrun : Run clientStep synced trace later) (hnone : ∀ taken ∈ trace, ¬ Response taken)
    (ht : t ≤ t') :
    getCurrentEpoch (toMsSinceBoot t') (some later.ntp) =
        (.ok, some (second * 1000 + (uptimeMs t' - uptimeMs t))) ↔
      uptimeMs t' / 2 ^ 32 = uptimeMs t / 2 ^ 32 := by
  have hstart : Synced synced.ntp second t := by
    obtain rfl := Option.some.inj hrecv
    exact synced_recv hvalid hsecond hstamp t
  have hlater : Synced later.ntp second t :=
    hrun.invariant_of_forall (fun c ↦ Synced c.ntp second t) hnone hstart
      fun _ _ _ hbefore hstep hcond ↦ hbefore.step hstep hcond
  exact epoch_of_synced hlater hsecond ht

/-- A response of the first second of 2026. -/
def newYear : NtpPacket where
  addr := 0
  port := ntpPort
  totLen := ntpMsgLen
  mode := 4
  stratum := 1
  seconds := (0xED, 0x00, 0x37, 0x80)

/-- A minute after a response at an uptime of one second. -/
theorem clock_exact_after_minute :
    getCurrentEpoch (toMsSinceBoot 61000000)
        (some ((Client.init 0).recv 1000000 (toMsSinceBoot 1000000) newYear).ntp) =
      (.ok, some (1767225600 * 1000 + (uptimeMs 61000000 - uptimeMs 1000000))) := by
  have hvalid : newYear.Valid (Client.init 0).ntp := ⟨rfl, rfl, rfl, rfl, by decide⟩
  have hrecv : clientStep (Client.init 0)
      (.recv (1000000 : UInt64).toNat (toMsSinceBoot 1000000) newYear) =
        some ((Client.init 0).recv 1000000 (toMsSinceBoot 1000000) newYear) := rfl
  have hstamp : newYear.Stamped 1767225600 := rfl
  exact (clock_exact_iff (by decide) hstamp hvalid hrecv .refl (by simp) (by decide)).mpr
    (by decide)

/-- A millisecond after a response just before the counter wraps, the clock is 49 days behind. -/
theorem clock_wraps : ¬ ∀ (c synced later : Client) (p : NtpPacket) (second : Nat) (t t' : UInt64)
    (trace : List (Taken Client ClientEvent)), second < 2 ^ 32 → p.Stamped second →
      p.Valid c.ntp → clientStep c (.recv t.toNat (toMsSinceBoot t) p) = some synced →
      Run clientStep synced trace later → (∀ taken ∈ trace, ¬ Response taken) → t ≤ t' →
        getCurrentEpoch (toMsSinceBoot t') (some later.ntp) =
          (.ok, some (second * 1000 + (uptimeMs t' - uptimeMs t))) := by
  intro hclaim
  have hepoch := hclaim (Client.init 0) _ _ newYear 1767225600 4294967295000 4294967296000 []
    (by decide) rfl ⟨rfl, rfl, rfl, rfl, by decide⟩ rfl .refl (by simp) (by decide)
  exact absurd hepoch (by decide)

end DirtieNode.Util
