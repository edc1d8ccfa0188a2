import DirtieNode.Library.Transition
import DirtieNode.Util.Ntp

/-!
# Polling and its callbacks

`ntp_poll` in the steps between which lwIP and the alarm pool can run a callback: it arms an alarm,
asks for the address under the lwIP lock, sets `dns_request_sent`, and acts on the answer. A
callback that ends the attempt before the flag is set takes the alarm with it, and the flag is set
all the same.
-/

namespace DirtieNode.Util

open Transition

/-- The place of `ntp_poll`: not running, with its alarm armed, with the answer of
`dns_gethostbyname`, or with the flag set. -/
inductive PollPc where
  | idle
  | armed
  | called (dns : DnsResult)
  | sent (dns : DnsResult)

/-- The client with the alarms of its own that are pending. -/
structure Client where
  ntp : Ntp
  pending : List Int := []
  pc : PollPc := .idle

/-- A step of `ntp_poll`, or a callback. -/
inductive ClientEvent where
  /-- the call of `ntp_poll`, with the number that `add_alarm_in_ms` returns -/
  | poll (now : Nat) (alarm : Int)
  | lookup (dns : DnsResult)
  | mark
  | act (now : Nat)
  | recv (now nowMs : Nat) (p : NtpPacket)
  /-- an alarm is due and `ntp_failed_handler` runs -/
  | alarm (now : Nat) (id : Int)
  | dnsFound (now : Nat) (ipaddr : Option Nat)

/-- `ntp_sync_done`, with `cancel_alarm`. -/
def Client.syncDone (now : Nat) (c : Client) : Client where
  ntp := ntpSyncDone now c.ntp
  pending := if c.ntp.resendAlarm > 0 then c.pending.erase c.ntp.resendAlarm else c.pending
  pc := c.pc

/-- `ntp_recv`. Both branches end the attempt. -/
def Client.recv (now nowMs : Nat) (p : NtpPacket) (c : Client) : Client :=
  { c.syncDone now with ntp := ntpRecv now nowMs p c.ntp }

/-- `ntp_failed_handler`, whose result `0` ends its alarm. -/
def Client.failed (now : Nat) (id : Int) (c : Client) : Client :=
  { c.syncDone now with
    ntp := ntpFailedHandler now c.ntp
    pending := (c.syncDone now).pending.erase id }

/-- `ntp_dns_found`. -/
def Client.dnsFound (now : Nat) (ipaddr : Option Nat) (c : Client) : Client :=
  match ipaddr with
  | some _ => { c with ntp := ntpDnsFound now ipaddr c.ntp }
  | none => { c.syncDone now with ntp := ntpDnsFound now none c.ntp }

/-- The transition function of the client. The alarm numbers are positive, as `add_alarm_in_ms`
promises while it has a free alarm, and only a pending alarm can be due. -/
def clientStep (c : Client) : ClientEvent → Option Client
  | .poll now alarm =>
      match c.pc with
      | .idle =>
          if c.ntp.nextPoll < now ∧ !c.ntp.dnsRequestSent then
            if 0 < alarm then
              some { ntp := { c.ntp with resendAlarm := alarm },
                     pending := alarm :: c.pending, pc := .armed }
            else none
          else some c
      | _ => none
  | .lookup dns =>
      match c.pc with
      | .armed =>
          match dns with
          | .ok address =>
              some { c with ntp := { c.ntp with serverAddress := address }, pc := .called dns }
          | _ => some { c with pc := .called dns }
      | _ => none
  | .mark =>
      match c.pc with
      | .called dns => some { c with ntp := { c.ntp with dnsRequestSent := true }, pc := .sent dns }
      | _ => none
  | .act now =>
      match c.pc with
      | .sent .failed => some { c.syncDone now with pc := .idle }
      | .sent _ => some { c with pc := .idle }
      | _ => none
  | .recv now nowMs p => some (c.recv now nowMs p)
  | .alarm now id => if id ∈ c.pending then some (c.failed now id) else none
  | .dnsFound now ipaddr => some (c.dnsFound now ipaddr)

/-- The client after `ntp_init`. -/
def Client.init (now : Nat) : Client :=
  { ntp := { nextPoll := now } }

/-! ## What a step can do -/

/-- The callback calls `ntp_sync_done`. -/
def ClientEvent.ends : ClientEvent → Bool
  | .recv .. | .alarm .. | .dnsFound _ none => true
  | _ => false

/-- The step begins a call of `ntp_poll`. -/
def ClientEvent.isPoll : ClientEvent → Bool
  | .poll .. => true
  | _ => false

/-- The step sets the flag. -/
def ClientEvent.isMark : ClientEvent → Bool
  | .mark => true
  | _ => false

/-- The steps of the client as a relation, each with what it needs and the client it leaves. -/
inductive ClientStep (c : Client) : ClientEvent → Client → Prop
  | waits {now : Nat} {alarm : Int} (hpc : c.pc = .idle)
      (hdue : ¬ (c.ntp.nextPoll < now ∧ !c.ntp.dnsRequestSent)) : ClientStep c (.poll now alarm) c
  | arms {now : Nat} {alarm : Int} (hpc : c.pc = .idle) (hdue : c.ntp.nextPoll < now)
      (hflag : c.ntp.dnsRequestSent = false) (halarm : 0 < alarm) :
      ClientStep c (.poll now alarm)
        { ntp := { c.ntp with resendAlarm := alarm }, pending := alarm :: c.pending, pc := .armed }
  | finds {address : Nat} (hpc : c.pc = .armed) :
      ClientStep c (.lookup (.ok address))
        { c with ntp := { c.ntp with serverAddress := address }, pc := .called (.ok address) }
  | asks {dns : DnsResult} (hpc : c.pc = .armed) (hdns : ∀ address, dns ≠ .ok address) :
      ClientStep c (.lookup dns) { c with pc := .called dns }
  | marks {dns : DnsResult} (hpc : c.pc = .called dns) :
      ClientStep c .mark { c with ntp := { c.ntp with dnsRequestSent := true }, pc := .sent dns }
  | fails {now : Nat} (hpc : c.pc = .sent .failed) :
      ClientStep c (.act now) { c.syncDone now with pc := .idle }
  | returns {now : Nat} {dns : DnsResult} (hpc : c.pc = .sent dns) (hdns : dns ≠ .failed) :
      ClientStep c (.act now) { c with pc := .idle }
  | receives {now nowMs : Nat} {p : NtpPacket} :
      ClientStep c (.recv now nowMs p) (c.recv now nowMs p)
  | rings {now : Nat} {id : Int} (hmem : id ∈ c.pending) :
      ClientStep c (.alarm now id) (c.failed now id)
  | answers {now : Nat} {ipaddr : Option Nat} :
      ClientStep c (.dnsFound now ipaddr) (c.dnsFound now ipaddr)

section Steps

variable {c c' : Client} {e : ClientEvent}

/-- The end of an attempt clears the flag. -/
@[simp] theorem ntpSyncDone_dnsRequestSent (now : Nat) (state : Ntp) :
    (ntpSyncDone now state).dnsRequestSent = false := by
  unfold ntpSyncDone
  split <;> rfl

/-- The end of an attempt leaves no alarm stored. -/
theorem ntpSyncDone_resendAlarm (now : Nat) (state : Ntp) :
    ¬ 0 < (ntpSyncDone now state).resendAlarm := by
  unfold ntpSyncDone
  split
  · exact Int.lt_irrefl 0
  · assumption

/-- A response ends the attempt, whether it is valid or not. -/
theorem ntpRecv_ends (now nowMs : Nat) (p : NtpPacket) (state : Ntp) :
    (ntpRecv now nowMs p state).dnsRequestSent = false ∧
      ¬ 0 < (ntpRecv now nowMs p state).resendAlarm := by
  unfold ntpRecv
  split <;> exact ⟨ntpSyncDone_dnsRequestSent _ _, ntpSyncDone_resendAlarm _ _⟩

/-- The only alarm that can be pending is the one whose number is stored. -/
def OneAlarm (c : Client) : Prop :=
  c.pending = if 0 < c.ntp.resendAlarm then [c.ntp.resendAlarm] else []

/-- The end of an attempt leaves no alarm behind. -/
theorem syncDone_pending (h : OneAlarm c) (now : Nat) : (c.syncDone now).pending = [] := by
  unfold OneAlarm at h
  unfold Client.syncDone
  dsimp only
  split
  · rename_i halarm
    rw [h, if_pos halarm, List.erase_cons_head]
  · rename_i halarm
    rw [h, if_neg halarm]

/-- The attempt is over, with its alarm, and `ntp_poll` is where it was. -/
structure Ended (c c' : Client) : Prop where
  flag : c'.ntp.dnsRequestSent = false
  alarm : ¬ 0 < c'.ntp.resendAlarm
  pending : c'.pending = []
  pc : c'.pc = c.pc

/-- `ntp_sync_done` ends the attempt. -/
theorem ended_of_syncDone (hone : OneAlarm c) (now : Nat) : Ended c (c.syncDone now) :=
  ⟨ntpSyncDone_dnsRequestSent _ _, ntpSyncDone_resendAlarm _ _, syncDone_pending hone now, rfl⟩

/-- The step leaves the flag and the alarm alone. -/
structure SameAttempt (c c' : Client) : Prop where
  flag : c'.ntp.dnsRequestSent = c.ntp.dnsRequestSent
  alarm : c'.ntp.resendAlarm = c.ntp.resendAlarm
  pending : c'.pending = c.pending

/-- What a step does to the flag, the alarm and the place of `ntp_poll`. -/
inductive ClientChange (c : Client) : ClientEvent → Client → Prop
  | waits {now : Nat} {alarm : Int} (hpc : c.pc = .idle) : ClientChange c (.poll now alarm) c
  | arms {now : Nat} {alarm : Int} {c' : Client} (hpc : c.pc = .idle)
      (hflag : c.ntp.dnsRequestSent = false)
      (halarm : 0 < alarm) (hpc' : c'.pc = .armed) (hflag' : c'.ntp.dnsRequestSent = false)
      (hstored : c'.ntp.resendAlarm = alarm) (hpending : c'.pending = alarm :: c.pending) :
      ClientChange c (.poll now alarm) c'
  | looks {dns : DnsResult} {c' : Client} (hpc : c.pc = .armed) (hpc' : c'.pc = .called dns)
      (hsame : SameAttempt c c') :
      ClientChange c (.lookup dns) c'
  | marks {dns : DnsResult} {c' : Client} (hpc : c.pc = .called dns) (hpc' : c'.pc = .sent dns)
      (hflag : c'.ntp.dnsRequestSent = true) (halarm : c'.ntp.resendAlarm = c.ntp.resendAlarm)
      (hpending : c'.pending = c.pending) : ClientChange c .mark c'
  | fails {now : Nat} {c' : Client} (hpc : c.pc = .sent .failed) (hpc' : c'.pc = .idle)
      (hended : Ended { c with pc := .idle } c') : ClientChange c (.act now) c'
  | returns {now : Nat} {dns : DnsResult} {c' : Client} (hpc : c.pc = .sent dns)
      (hdns : dns ≠ .failed) (hpc' : c'.pc = .idle) (hsame : SameAttempt c c') :
      ClientChange c (.act now) c'
  | ends {e : ClientEvent} {c' : Client} (he : e.ends = true) (hended : Ended c c') :
      ClientChange c e c'
  | resolves {now address : Nat} {c' : Client} (hpc : c'.pc = c.pc) (hsame : SameAttempt c c') :
      ClientChange c (.dnsFound now (some address)) c'

/-- Every step of the transition function is one of the relation. -/
theorem clientStep_cases (h : clientStep c e = some c') : ClientStep c e c' := by
  cases e with
  | poll now alarm =>
      simp only [clientStep] at h
      split at h
      · rename_i hpc
        split at h
        · rename_i hdue
          split at h
          · rename_i halarm
            obtain rfl := Option.some.inj h
            exact .arms hpc hdue.1 (by simpa using hdue.2) halarm
          · simp at h
        · rename_i hdue
          obtain rfl := Option.some.inj h
          exact .waits hpc hdue
      · simp at h
  | lookup dns =>
      simp only [clientStep] at h
      split at h
      · rename_i hpc
        split at h
        · obtain rfl := Option.some.inj h
          exact .finds hpc
        · rename_i hdns
          obtain rfl := Option.some.inj h
          exact .asks hpc hdns
      · simp at h
  | mark =>
      simp only [clientStep] at h
      split at h
      · rename_i hpc
        obtain rfl := Option.some.inj h
        exact .marks hpc
      · simp at h
  | act now =>
      simp only [clientStep] at h
      split at h
      · rename_i hpc
        obtain rfl := Option.some.inj h
        exact .fails hpc
      · rename_i hdns hpc
        obtain rfl := Option.some.inj h
        exact .returns hpc hdns
      · simp at h
  | recv now nowMs p =>
      obtain rfl := Option.some.inj h
      exact .receives
  | alarm now id =>
      simp only [clientStep] at h
      split at h
      · rename_i hmem
        obtain rfl := Option.some.inj h
        exact .rings hmem
      · simp at h
  | dnsFound now ipaddr =>
      obtain rfl := Option.some.inj h
      exact .answers

/-- While one alarm at most is pending, a step keeps the attempt or ends it with its alarm. -/
theorem client_cases (hone : OneAlarm c) (h : clientStep c e = some c') : ClientChange c e c' := by
  cases clientStep_cases h with
  | waits hpc => exact .waits hpc
  | arms hpc _ hflag halarm => exact .arms hpc hflag halarm rfl hflag rfl rfl
  | finds hpc | asks hpc => exact .looks hpc rfl ⟨rfl, rfl, rfl⟩
  | marks hpc => exact .marks hpc rfl rfl rfl rfl
  | @fails now hpc =>
      obtain ⟨hflag, halarm, hpending, -⟩ := ended_of_syncDone hone now
      exact .fails hpc rfl ⟨hflag, halarm, hpending, rfl⟩
  | returns hpc hdns => exact .returns hpc hdns rfl ⟨rfl, rfl, rfl⟩
  | @receives now nowMs p =>
      obtain ⟨hflag, halarm⟩ := ntpRecv_ends now nowMs p c.ntp
      exact .ends rfl ⟨hflag, halarm, syncDone_pending hone now, rfl⟩
  | @rings now id =>
      obtain ⟨hflag, halarm, hpending, hpc⟩ := ended_of_syncDone hone now
      refine .ends rfl ⟨hflag, halarm, ?_, hpc⟩
      show (c.syncDone now).pending.erase id = []
      rw [hpending, List.erase_nil]
  | @answers now ipaddr =>
      cases ipaddr with
      | none => exact .ends rfl (ended_of_syncDone hone now)
      | some address => exact .resolves rfl ⟨rfl, rfl, rfl⟩

end Steps

/-! ## Runs -/

/-- A step since the last one of a kind has ended the attempt. -/
def endedSince (stop : ClientEvent → Bool) (older : List (Taken Client ClientEvent)) : Bool :=
  (older.takeWhile fun taken ↦ !stop taken.event).any fun taken ↦ taken.event.ends

/-- A step that stops the search hides the older ones, and one that ends an attempt is found. -/
theorem endedSince_cons (stop : ClientEvent → Bool) (taken : Taken Client ClientEvent)
    (older : List (Taken Client ClientEvent)) :
    endedSince stop (taken :: older) =
      (!stop taken.event && (taken.event.ends || endedSince stop older)) := by
  unfold endedSince
  cases hstop : stop taken.event <;> simp [hstop]

/-- If a request counts as sent, its alarm is pending, and when that is due it clears the flag. -/
def NotWedged (c : Client) : Prop :=
  c.ntp.dnsRequestSent = true → c.ntp.resendAlarm ∈ c.pending ∧
    ∀ now, ∃ c', clientStep c (.alarm now c.ntp.resendAlarm) = some c' ∧
      c'.ntp.dnsRequestSent = false

/-- When `ntp_poll` returns, the lookup has failed, or a callback has ended the attempt since the
flag was set, or none has since the alarm was armed. -/
def EndsInTime (older : List (Taken Client ClientEvent)) (taken : Taken Client ClientEvent) :
    Prop :=
  ∀ now dns, taken.event = .act now → taken.before.pc = .sent dns → dns = .failed ∨
    endedSince ClientEvent.isMark older = true ∨ endedSince ClientEvent.isPoll older = false

/-- The flag and the alarm along a run whose attempts end in time. -/
structure PollInv (older : List (Taken Client ClientEvent)) (c : Client) : Prop where
  one : OneAlarm c
  idle : c.pc = .idle → (c.ntp.dnsRequestSent = true ↔ 0 < c.ntp.resendAlarm)
  running : c.pc ≠ .idle → (0 < c.ntp.resendAlarm ↔ endedSince ClientEvent.isPoll older = false)
  early : (c.pc = .armed ∨ ∃ dns, c.pc = .called dns) → c.ntp.dnsRequestSent = false
  late : (∃ dns, c.pc = .sent dns) →
    (c.ntp.dnsRequestSent = true ↔ endedSince ClientEvent.isMark older = false)
  held : (∃ dns, c.pc = .sent dns) → 0 < c.ntp.resendAlarm → c.ntp.dnsRequestSent = true

/-- While one alarm at most is pending, the flag has to come with an alarm that is stored. -/
theorem notWedged_iff {c : Client} (h : OneAlarm c) :
    NotWedged c ↔ (c.ntp.dnsRequestSent = true → 0 < c.ntp.resendAlarm) := by
  unfold OneAlarm at h
  refine imp_congr_right fun _ ↦ ?_
  constructor
  · rintro ⟨hmem, _⟩
    by_contra hnone
    rw [h, if_neg hnone] at hmem
    simp at hmem
  · intro halarm
    have hmem : c.ntp.resendAlarm ∈ c.pending := by
      rw [h, if_pos halarm]
      exact List.mem_singleton_self _
    exact ⟨hmem, fun now ↦ ⟨c.failed now c.ntp.resendAlarm, if_pos hmem,
      ntpSyncDone_dnsRequestSent _ _⟩⟩

section Invariant

variable {older : List (Taken Client ClientEvent)} {c c' : Client} {e : ClientEvent}

/-- After the end of an attempt no alarm is pending. -/
theorem oneAlarm_of_ended (h : Ended c c') : OneAlarm c' := by
  unfold OneAlarm
  rw [h.pending, if_neg h.alarm]

/-- A step that leaves the alarm alone keeps it the only one. -/
theorem oneAlarm_of_same (hone : OneAlarm c) (h : SameAttempt c c') : OneAlarm c' := by
  unfold OneAlarm at *
  rw [h.pending, h.alarm, hone]

/-- The end of an attempt leaves nothing to wait for. -/
theorem notWedged_of_ended (h : Ended c c') : NotWedged c' := by
  rw [notWedged_iff (oneAlarm_of_ended h), h.flag]
  simp

/-- A step that is not the return of `ntp_poll` has nothing to end in time. -/
theorem endsInTime_of_ne {taken : Taken Client ClientEvent} (h : ∀ now, taken.event ≠ .act now) :
    EndsInTime older taken :=
  fun now _ hact ↦ absurd hact (h now)

/-- Between two calls the client is not wedged exactly when the last one ended in time. -/
theorem notWedged_step (hinv : PollInv older c) (h : clientStep c e = some c') :
    (c'.pc = .idle → NotWedged c') ↔ EndsInTime older ⟨c, e, c'⟩ := by
  cases client_cases hinv.one h with
  | waits hpc =>
      refine iff_of_true (fun _ ↦ ?_) (endsInTime_of_ne (by simp))
      exact (notWedged_iff hinv.one).mpr (hinv.idle hpc).mp
  | arms _ _ _ hpc' | looks _ hpc' | marks _ hpc' =>
      refine iff_of_true (fun hidle ↦ ?_) (endsInTime_of_ne (by simp))
      rw [hpc'] at hidle
      simp at hidle
  | fails hpc _ hended =>
      refine iff_of_true (fun _ ↦ notWedged_of_ended hended) fun _ dns _ hsent ↦ .inl ?_
      rw [show c.pc = _ from hpc] at hsent
      exact (PollPc.sent.inj hsent).symm
  | @returns now dns _ hpc hdns hpc' hsame =>
      have hflag := hinv.late ⟨dns, hpc⟩
      have halarm := hinv.running (by simp [hpc])
      have hwedged := notWedged_iff (oneAlarm_of_same hinv.one hsame)
      rw [hsame.flag, hsame.alarm, hflag, halarm] at hwedged
      -- the flag is set unless a callback has ended the attempt since `mark`, and the alarm is
      -- pending unless one has since `poll`
      rw [forall_prop_of_true hpc', hwedged]
      constructor
      · intro hkept now dns' _ _
        cases hmark : endedSince ClientEvent.isMark older with
        | true => exact .inr (.inl rfl)
        | false => exact .inr (.inr (hkept hmark))
      · intro hcond hmark
        rcases hcond now dns rfl hpc with hfailed | hended | hnever
        · exact absurd hfailed hdns
        · simp [hmark] at hended
        · exact hnever
  | ends he hended =>
      refine iff_of_true (fun _ ↦ notWedged_of_ended hended) (endsInTime_of_ne ?_)
      rintro now rfl
      simp [ClientEvent.ends] at he
  | resolves hpc hsame =>
      refine iff_of_true (fun hidle ↦ ?_) (endsInTime_of_ne (by simp))
      rw [notWedged_iff (oneAlarm_of_same hinv.one hsame), hsame.flag, hsame.alarm]
      exact (hinv.idle (hpc ▸ hidle)).mp

/-- A step that ends its attempt in time keeps the invariant. -/
theorem pollInv_step (hinv : PollInv older c) (h : clientStep c e = some c')
    (hcond : EndsInTime older ⟨c, e, c'⟩) : PollInv (⟨c, e, c'⟩ :: older) c' := by
  have hwedged := (notWedged_step hinv h).mpr hcond
  cases client_cases hinv.one h with
  | waits hpc =>
      refine ⟨hinv.one, hinv.idle, fun hne ↦ absurd hpc hne, hinv.early, ?_, hinv.held⟩
      rintro ⟨dns, hsent⟩
      simp [hpc] at hsent
  | @arms now alarm _ hpc hflag halarm hpc' hflag' hstored hpending =>
      -- no request is out, so the new alarm is the only one
      have hnone : ¬ 0 < c.ntp.resendAlarm := by simpa [hflag] using (hinv.idle hpc).not
      have hempty : c.pending = [] := by
        have hone := hinv.one
        unfold OneAlarm at hone
        rwa [if_neg hnone] at hone
      refine ⟨?_, by simp [hpc'], fun _ ↦ ?_, fun _ ↦ hflag', by simp [hpc'], by simp [hpc']⟩
      · unfold OneAlarm
        rw [hpending, hstored, if_pos halarm, hempty]
      · simp [endedSince_cons, ClientEvent.isPoll, hstored, halarm]
  | @looks dns _ hpc hpc' hsame =>
      refine ⟨oneAlarm_of_same hinv.one hsame, by simp [hpc'], fun _ ↦ ?_, fun _ ↦ ?_,
        by simp [hpc'], by simp [hpc']⟩
      · rw [hsame.alarm, hinv.running (by simp [hpc])]
        simp [endedSince_cons, ClientEvent.isPoll, ClientEvent.ends]
      · rw [hsame.flag]
        exact hinv.early (.inl hpc)
  | @marks dns _ hpc hpc' hflag halarm hpending =>
      refine ⟨?_, by simp [hpc'], fun _ ↦ ?_, by simp [hpc'], fun _ ↦ ?_, fun _ _ ↦ hflag⟩
      · have hone := hinv.one
        unfold OneAlarm at *
        rw [hpending, halarm, hone]
      · rw [halarm, hinv.running (by simp [hpc])]
        simp [endedSince_cons, ClientEvent.isPoll, ClientEvent.ends]
      · simp [endedSince_cons, ClientEvent.isMark, hflag]
  | fails hpc hpc' hended =>
      refine ⟨oneAlarm_of_ended hended, fun _ ↦ ?_, by simp [hpc'], by simp [hpc'], by simp [hpc'],
        by simp [hpc']⟩
      simp [hended.flag, hended.alarm]
  | @returns now dns _ hpc hdns hpc' hsame =>
      have hone := oneAlarm_of_same hinv.one hsame
      refine ⟨hone, fun _ ↦ ⟨(notWedged_iff hone).mp (hwedged hpc'), fun halarm ↦ ?_⟩,
        by simp [hpc'], by simp [hpc'], by simp [hpc'], by simp [hpc']⟩
      rw [hsame.alarm] at halarm
      rw [hsame.flag]
      exact hinv.held ⟨dns, hpc⟩ halarm
  | ends he hended =>
      have hpoll : e.isPoll = false := by
        cases e <;> simp_all [ClientEvent.ends, ClientEvent.isPoll]
      have hmark : e.isMark = false := by
        cases e <;> simp_all [ClientEvent.ends, ClientEvent.isMark]
      refine ⟨oneAlarm_of_ended hended, fun _ ↦ ?_, fun _ ↦ ?_, fun _ ↦ hended.flag, fun _ ↦ ?_,
        fun _ halarm ↦ absurd halarm hended.alarm⟩
      · simp [hended.flag, hended.alarm]
      · simp [endedSince_cons, hpoll, he, hended.alarm]
      · simp [endedSince_cons, hmark, he, hended.flag]
  | @resolves now address _ hpc hsame =>
      have hsince : ∀ stop : ClientEvent → Bool, stop (.dnsFound now (some address)) = false →
          endedSince stop (⟨c, .dnsFound now (some address), c'⟩ :: older) =
            endedSince stop older := by
        intro stop hstop
        simp [endedSince_cons, hstop, ClientEvent.ends]
      refine ⟨oneAlarm_of_same hinv.one hsame, ?_, ?_, ?_, ?_, ?_⟩ <;>
        rw [hpc] <;> simp only [hsame.flag, hsame.alarm]
      · exact hinv.idle
      · rw [hsince _ rfl]
        exact hinv.running
      · exact hinv.early
      · rw [hsince _ rfl]
        exact hinv.late
      · exact hinv.held

end Invariant

/-- Along every interleaving of `ntp_poll` and its callbacks, the alarm of a request is pending
between two calls exactly when no callback ends an attempt before its flag is set. -/
theorem not_wedged_iff {now : Nat} {trace : List (Taken Client ClientEvent)} {c : Client}
    (h : Run clientStep (Client.init now) trace c) :
    (∀ taken ∈ trace, taken.after.pc = .idle → NotWedged taken.after) ↔ Along EndsInTime trace := by
  rw [← along_forall]
  refine h.along_iff PollInv ?_ (fun older before event after _ hinv hstep ↦ ?_)
    (fun older before event after _ hinv hstep hcond ↦ ?_)
  · refine ⟨rfl, ?_, fun hne ↦ absurd rfl hne, ?_, ?_, ?_⟩ <;> simp [Client.init]
  · exact notWedged_step hinv hstep
  · exact pollInv_step hinv hstep hcond

/-- A call of `ntp_poll` with nothing in between, as events. -/
def pollEvents (now : Nat) (alarm : Int) (dns : DnsResult) : List ClientEvent :=
  [.poll now alarm, .lookup dns, .mark, .act now]

/-- A request without callbacks until it is sent. -/
theorem not_wedged_undisturbed : ∃ (trace : List (Taken Client ClientEvent)) (c : Client),
    Run clientStep (Client.init 0) trace c ∧ c.ntp.dnsRequestSent = true ∧
      ∀ taken ∈ trace, taken.after.pc = .idle → NotWedged taken.after := by
  have hrun : Run clientStep (Client.init 0) _ _ :=
    run_of_record (show record _ _ (pollEvents 1 1 .inProgress) = some (_, _) from rfl)
  refine ⟨_, _, hrun, rfl, (not_wedged_iff hrun).mpr ⟨?_, ?_, ?_, ?_, trivial⟩⟩
  · exact fun _ _ _ _ ↦ .inr (.inr rfl)
  all_goals exact endsInTime_of_ne (by simp)

/-- The lookup fails before `ntp_poll` sets the flag: it is set without an alarm. -/
theorem wedged_by_early_answer : ¬ ∀ (now : Nat) (trace : List (Taken Client ClientEvent))
    (c : Client), Run clientStep (Client.init now) trace c →
      ∀ taken ∈ trace, taken.after.pc = .idle → NotWedged taken.after := by
  intro hclaim
  have hrun : Run clientStep (Client.init 0) _ _ :=
    run_of_record (show record _ _
      [.poll 1 1, .lookup .inProgress, .dnsFound 1 none, .mark, .act 1] = some (_, _) from rfl)
  obtain ⟨hmem, _⟩ := hclaim 0 _ _ hrun _ List.mem_cons_self rfl rfl
  exact List.not_mem_nil hmem

/-- Without callbacks in between, the steps are a call of `ntp_poll`. -/
theorem poll_steps (c : Client) {now : Nat} {alarm : Int} (dns : DnsResult) (hidle : c.pc = .idle)
    (halarm : 0 < alarm) (hdue : c.ntp.nextPoll < now ∧ !c.ntp.dnsRequestSent) :
    ∃ trace finish, Run clientStep c trace finish ∧ finish.pc = .idle ∧
      finish.ntp = ntpPoll now alarm dns c.ntp := by
  let armed : Client :=
    { ntp := { c.ntp with resendAlarm := alarm }, pending := alarm :: c.pending, pc := .armed }
  have hpoll : clientStep c (.poll now alarm) = some armed := by
    simp only [clientStep, hidle]
    rw [if_pos hdue, if_pos halarm]
  unfold ntpPoll
  rw [if_pos hdue]
  have hfirst : Run clientStep c _ armed := .step .refl hpoll
  cases dns with
  | ok address =>
      have hrest : record clientStep armed [.lookup (.ok address), .mark, .act now] =
        some (_, _) := rfl
      exact ⟨_, _, hfirst.trans (run_of_record hrest), rfl, rfl⟩
  | inProgress =>
      have hrest : record clientStep armed [.lookup .inProgress, .mark, .act now] =
        some (_, _) := rfl
      exact ⟨_, _, hfirst.trans (run_of_record hrest), rfl, rfl⟩
  | failed =>
      have hrest : record clientStep armed [.lookup .failed, .mark, .act now] =
        some (_, _) := rfl
      exact ⟨_, _, hfirst.trans (run_of_record hrest), rfl, rfl⟩

end DirtieNode.Util
