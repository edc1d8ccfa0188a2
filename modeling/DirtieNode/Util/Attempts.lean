import DirtieNode.Util.Poll

/-!
# Attempts

An attempt to synchronise begins when `ntp_poll` arms its alarm. Whatever ends it sets the time of
the next one, and an attempt that has not ended holds the flag or is still in `ntp_poll`. So two
attempts are apart by the polling interval, and no attempt leaves an alarm behind, even when
`ntp_poll` is wedged.
-/

namespace DirtieNode.Util

open Transition

/-- The polling interval in microseconds. -/
def ntpPollUs : Nat := ntpPollMs * 1000

/-- The reading of the clock that goes with a step. -/
def ClientEvent.time : ClientEvent → Option Nat
  | .poll now _ | .act now | .recv now _ _ | .alarm now _ | .dnsFound now _ => some now
  | .lookup _ | .mark => none

/-- The clock does not go back. -/
def InOrder (older : List (Taken Client ClientEvent)) (taken : Taken Client ClientEvent) : Prop :=
  ∀ now ∈ taken.event.time, ∀ past ∈ older, ∀ before ∈ past.event.time, before ≤ now

instance (older : List (Taken Client ClientEvent)) (taken : Taken Client ClientEvent) :
    Decidable (InOrder older taken) :=
  inferInstanceAs (Decidable (∀ now ∈ taken.event.time, ∀ past ∈ older,
    ∀ before ∈ past.event.time, before ≤ now))

/-- `ntp_poll` begins an attempt at this time. -/
def Begins (taken : Taken Client ClientEvent) (now : Nat) : Prop :=
  taken.after.pc = .armed ∧ ∃ alarm, taken.event = .poll now alarm

/-- An attempt begins more than the polling interval after those before it. -/
def Spaced (older : List (Taken Client ClientEvent)) (taken : Taken Client ClientEvent) : Prop :=
  ∀ now, Begins taken now → ∀ past ∈ older, ∀ start, Begins past start → start + ntpPollUs < now

/-- The place of `ntp_poll` between the alarm and the flag. -/
def PollPc.early : PollPc → Bool
  | .armed | .called _ => true
  | _ => false

/-- The attempt that began last is still in `ntp_poll`, or its flag is set, or the next one has to
wait for this time. -/
def Waits (start : Nat) (c : Client) : Prop :=
  c.pc.early = true ∨ c.ntp.dnsRequestSent = true ∨ start + ntpPollUs ≤ c.ntp.nextPoll

section Steps

variable {c c' : Client} {e : ClientEvent}

/-- A response puts the next attempt off by the polling interval. -/
theorem ntpRecv_nextPoll (now nowMs : Nat) (p : NtpPacket) (state : Ntp) :
    (ntpRecv now nowMs p state).nextPoll = now + ntpPollUs := by
  unfold ntpRecv
  split
  · rfl
  · rfl

/-- The end of an attempt at this time lets the next one wait. -/
theorem waits_of_ended {start now : Nat} (hle : start ≤ now)
    (hnext : c.ntp.nextPoll = now + ntpPollUs) : Waits start c := by
  right
  right
  rw [hnext]
  omega

/-- An attempt that waits goes on waiting at every step. -/
theorem Waits.step {start : Nat} (hwaits : Waits start c) (h : clientStep c e = some c')
    (hle : ∀ now ∈ e.time, start ≤ now) : Waits start c' := by
  cases clientStep_cases h with
  | waits => exact hwaits
  | arms | finds | asks => exact .inl rfl
  | marks => exact .inr (.inl rfl)
  | fails | rings => exact waits_of_ended (hle _ rfl) rfl
  | returns hpc =>
      -- the call returns, and the flag and the time stay
      rcases hwaits with hearly | hlater
      · rw [hpc] at hearly
        exact absurd hearly (by simp [PollPc.early])
      · exact .inr hlater
  | receives => exact waits_of_ended (hle _ rfl) (ntpRecv_nextPoll ..)
  | @answers now ipaddr =>
      cases ipaddr with
      | none => exact waits_of_ended (hle now rfl) rfl
      | some address => exact hwaits

/-- A step that begins an attempt finds `ntp_poll` idle, the flag clear and the time over. -/
theorem begins_cases {now : Nat} (h : clientStep c e = some c') (hbegins : Begins ⟨c, e, c'⟩ now) :
    c.pc = .idle ∧ c.ntp.dnsRequestSent = false ∧ c.ntp.nextPoll < now := by
  obtain ⟨harmed, alarm, rfl⟩ := hbegins
  cases clientStep_cases h with
  | waits hpc =>
      rw [show c.pc = .armed from harmed] at hpc
      exact absurd hpc (by simp)
  | arms hpc hdue hflag => exact ⟨hpc, hflag, hdue⟩

end Steps

/-- All the attempts of a run wait. -/
def AllWait (older : List (Taken Client ClientEvent)) (c : Client) : Prop :=
  ∀ past ∈ older, ∀ start, Begins past start → Waits start c

/-- In every interleaving of `ntp_poll` with its callbacks, two attempts begin more than the polling
interval apart. -/
theorem attempts_spaced {start : Nat} {trace : List (Taken Client ClientEvent)} {c : Client}
    (h : Run clientStep (Client.init start) trace c) (horder : Along InOrder trace) :
    Along Spaced trace := by
  suffices hall : AllWait trace c ∧ Along Spaced trace from hall.2
  induction h with
  | refl => exact ⟨by simp [AllWait], trivial⟩
  | @step older before after e hrun hlast ih =>
      obtain ⟨hwait, halong⟩ := ih horder.2
      refine ⟨fun past hmem first hbegins ↦ ?_, fun now hbegins past hmem first hfirst ↦ ?_, halong⟩
      · rcases List.mem_cons.mp hmem with rfl | hmem
        · left
          rw [show after.pc = .armed from hbegins.1]
          rfl
        · refine (hwait past hmem first hbegins).step hlast fun now hnow ↦ ?_
          obtain ⟨-, alarm, hpoll⟩ := hbegins
          exact horder.1 now hnow past hmem first (by rw [hpoll]; rfl)
      · obtain ⟨hidle, hflag, hdue⟩ := begins_cases hlast hbegins
        rcases hwait past hmem first hfirst with hearly | hset | htime
        · rw [hidle] at hearly
          exact absurd hearly (by simp [PollPc.early])
        · rw [hflag] at hset
          exact absurd hset (by simp)
        · exact Nat.lt_of_le_of_lt htime hdue

/-- A first attempt fails at its lookup, and a second one begins half a minute later. -/
theorem attempts_spaced_two : ∃ (past last : Taken Client ClientEvent)
    (trace : List (Taken Client ClientEvent)) (c : Client),
    Run clientStep (Client.init 0) (last :: trace) c ∧ past ∈ trace ∧ Begins past 1 ∧
      Begins last 30000002 ∧ 1 + ntpPollUs < 30000002 := by
  have hrun : Run clientStep (Client.init 0) _ _ :=
    run_of_record (show record _ _ (pollEvents 1 1 .failed ++ [.poll 30000002 2]) = some (_, _)
      from rfl)
  refine ⟨_, _, _, _, hrun, List.mem_of_getLast? rfl, ⟨rfl, 1, rfl⟩, ⟨rfl, 2, rfl⟩, ?_⟩
  exact (attempts_spaced hrun (of_decide_eq_true rfl)).1 _ ⟨rfl, 2, rfl⟩ _
    (List.mem_of_getLast? rfl) 1 ⟨rfl, 1, rfl⟩

/-! ## Alarms -/

/-- The alarm that is stored is the only one, and an attempt is under way. -/
structure AlarmInv (c : Client) : Prop where
  one : OneAlarm c
  underway : 0 < c.ntp.resendAlarm → c.ntp.dnsRequestSent = true ∨ c.pc.early = true

/-- A step keeps the stored alarm the only one. -/
theorem AlarmInv.step {c c' : Client} {e : ClientEvent} (hinv : AlarmInv c)
    (h : clientStep c e = some c') : AlarmInv c' := by
  cases client_cases hinv.one h with
  | waits hpc => exact hinv
  | @arms now alarm _ hpc hflag halarm hpc' hflag' hstored hpending =>
      -- the flag is clear and `ntp_poll` was idle, so no alarm was pending
      have hnone : ¬ 0 < c.ntp.resendAlarm := by
        intro hpositive
        rcases hinv.underway hpositive with hset | hearly
        · rw [hflag] at hset
          exact absurd hset (by simp)
        · rw [hpc] at hearly
          exact absurd hearly (by simp [PollPc.early])
      have hempty : c.pending = [] := by
        have hone := hinv.one
        unfold OneAlarm at hone
        rwa [if_neg hnone] at hone
      refine ⟨?_, fun _ ↦ .inr (by rw [hpc']; rfl)⟩
      unfold OneAlarm
      rw [hpending, hstored, if_pos halarm, hempty]
  | @looks dns _ hpc hpc' hsame =>
      exact ⟨oneAlarm_of_same hinv.one hsame, fun _ ↦ .inr (by rw [hpc']; rfl)⟩
  | @marks dns _ hpc hpc' hflag halarm hpending =>
      refine ⟨?_, fun _ ↦ .inl hflag⟩
      have hone := hinv.one
      unfold OneAlarm at *
      rw [hpending, halarm, hone]
  | fails hpc hpc' hended =>
      exact ⟨oneAlarm_of_ended hended, fun hpositive ↦ absurd hpositive hended.alarm⟩
  | @returns now dns _ hpc hdns hpc' hsame =>
      refine ⟨oneAlarm_of_same hinv.one hsame, fun hpositive ↦ .inl ?_⟩
      rw [hsame.alarm] at hpositive
      rw [hsame.flag]
      rcases hinv.underway hpositive with hset | hearly
      · exact hset
      · rw [hpc] at hearly
        exact absurd hearly (by simp [PollPc.early])
  | ends he hended =>
      exact ⟨oneAlarm_of_ended hended, fun hpositive ↦ absurd hpositive hended.alarm⟩
  | @resolves now address _ hpc hsame =>
      refine ⟨oneAlarm_of_same hinv.one hsame, fun hpositive ↦ ?_⟩
      rw [hsame.alarm] at hpositive
      rw [hsame.flag, hpc]
      exact hinv.underway hpositive

/-- In every interleaving, at most one alarm of the client is pending. It is the one whose number is
stored, and the attempt that armed it has not ended. -/
theorem one_alarm_pending {start : Nat} {trace : List (Taken Client ClientEvent)} {c : Client}
    (h : Run clientStep (Client.init start) trace c) :
    (c.pending = [] ∨ c.pending = [c.ntp.resendAlarm]) ∧
      (c.pending ≠ [] → c.ntp.dnsRequestSent = true ∨ c.pc.early = true) := by
  have hinv : AlarmInv c := by
    refine h.invariant AlarmInv ⟨rfl, fun hpositive ↦ absurd hpositive (Int.lt_irrefl 0)⟩ ?_
    intro before event after hbefore hstep
    exact hbefore.step hstep
  have hone := hinv.one
  unfold OneAlarm at hone
  by_cases hpositive : 0 < c.ntp.resendAlarm
  · rw [if_pos hpositive] at hone
    exact ⟨.inr hone, fun _ ↦ hinv.underway hpositive⟩
  · rw [if_neg hpositive] at hone
    exact ⟨.inl hone, fun hne ↦ absurd hone hne⟩

/-- A request that waits for its response has its alarm pending. -/
theorem one_alarm_pending_request : ∃ (trace : List (Taken Client ClientEvent)) (c : Client),
    Run clientStep (Client.init 0) trace c ∧ c.pending = [c.ntp.resendAlarm] ∧
      (c.ntp.dnsRequestSent = true ∨ c.pc.early = true) := by
  have hrun : Run clientStep (Client.init 0) _ _ :=
    run_of_record (show record _ _ (pollEvents 1 1 .inProgress) = some (_, _) from rfl)
  obtain ⟨hone, hunderway⟩ := one_alarm_pending hrun
  exact ⟨_, _, hrun, hone.resolve_left (by simp), hunderway (by simp)⟩

end DirtieNode.Util
