import DirtieNode.Library.Memory
import DirtieNode.Library.Transition

/-!
# Messages from the broker

`mqtt_pub_start_cb` and `mqtt_pub_data_cb` put the fragments of a message together in a buffer of
1025 bytes. The offset of the next fragment is a byte, and the number of missing bytes outlives a
message that was cut off: `reassembled` is about the runs in which neither matters.
-/

namespace DirtieNode.Connect

open CString Transition

/-- The globals of the two callbacks. -/
structure Inbound where
  buffer : List UInt8
  dataLen : UInt8
  dataIn : UInt32

/-- `mqtt_pub_start_cb`. -/
def mqttPubStartCb (totLen : UInt32) (inbound : Inbound) : Inbound :=
  if totLen > 1024 then inbound else { inbound with dataIn := totLen, dataLen := 0 }

/-- `mqtt_pub_data_cb`, or `none` when it writes outside of the buffer. -/
def mqttPubDataCb (data : List UInt8) (inbound : Inbound) : Option Inbound :=
  if inbound.dataIn > 0 then do
    let dataIn := inbound.dataIn - .ofNat data.length
    let buffer ← memcpy inbound.buffer inbound.dataLen.toNat data
    let dataLen := inbound.dataLen + .ofNat data.length
    if dataIn = 0 then
      let buffer ← memcpy buffer dataLen.toNat [0]
      pure ⟨buffer, dataLen, dataIn⟩
    else pure ⟨buffer, dataLen, dataIn⟩
  else pure inbound

/-! ## Deliveries -/

/-- A message on its way, and how many of its bytes have been delivered. -/
structure Delivery where
  message : List UInt8
  sent : Nat

/-- The globals, unless a write has left the buffer, and the message of which the last fragment is
still to come. -/
structure Link where
  memory : Option Inbound
  current : Option Delivery

/-- A message starts, a fragment of it arrives, or the link breaks. -/
inductive LinkEvent where
  | start (message : List UInt8)
  | fragment (count : Nat) (last : Bool)
  | disconnect

/-- The transition function. A message can start when no other one is on its way, its fragments
come in order, and the last one has all of the bytes that are left. -/
def linkStep (link : Link) : LinkEvent → Option Link
  | .start message =>
      if link.current.isNone ∧ message.length < 2 ^ 32 then
        some ⟨link.memory.map (mqttPubStartCb (.ofNat message.length)), some ⟨message, 0⟩⟩
      else none
  | .fragment count last =>
      match link.current with
      | none => none
      | some ⟨message, sent⟩ =>
          if sent + count ≤ message.length ∧ count < 2 ^ 16 ∧
              (last → sent + count = message.length) then
            some ⟨link.memory.bind (mqttPubDataCb ((message.drop sent).take count)),
              if last then none else some ⟨message, sent + count⟩⟩
          else none
  | .disconnect => some { link with current := none }

/-- The start of the program: the globals are zero. -/
def bootLink : Link :=
  ⟨some ⟨List.replicate 1025 0, 0, 0⟩, none⟩

/-- A step writes only into the buffer; if it is the last fragment of a message of at most 1024
bytes, the buffer has the message with a terminator; and if it is a fragment of a longer one, it
changes nothing. -/
structure Reassembled (taken : Taken Link LinkEvent) : Prop where
  inside : taken.after.memory ≠ none
  whole : ∀ count message sent, taken.event = .fragment count true →
    taken.before.current = some ⟨message, sent⟩ → message.length ≤ 1024 →
      ∃ inbound, taken.after.memory = some inbound ∧
        inbound.buffer.take (message.length + 1) = message ++ [0]
  ignored : ∀ count last message sent, taken.event = .fragment count last →
    taken.before.current = some ⟨message, sent⟩ → 1024 < message.length →
      taken.after.memory = taken.before.memory

/-- The last fragment of a message that fits is that of one that the byte offset can count, or of an
empty one that finds an empty string in the buffer; and a longer message does not come behind one
that was cut off. -/
def Countable (taken : Taken Link LinkEvent) : Prop :=
  match taken.event, taken.before.current with
  | .fragment count last, some ⟨message, _⟩ =>
      if message.length ≤ 1024 then
        last = true → message.length < 256 ∧ (message = [] →
          taken.before.memory.all (fun inbound ↦ inbound.buffer.take 1 = [0]))
      else count ≠ 0 → taken.before.memory.all (fun inbound ↦ inbound.dataIn = 0)
  | _, _ => True

instance : DecidablePred Countable
  | ⟨⟨memory, some ⟨message, _⟩⟩, .fragment count last, _⟩ =>
      inferInstanceAs (Decidable (if message.length ≤ 1024 then
        last = true → message.length < 256 ∧ (message = [] →
          memory.all (fun inbound ↦ inbound.buffer.take 1 = [0]))
        else count ≠ 0 → memory.all (fun inbound ↦ inbound.dataIn = 0)))
  | ⟨⟨_, none⟩, .fragment _ _, _⟩ | ⟨_, .start _, _⟩ | ⟨_, .disconnect, _⟩ => .isTrue trivial

/-! ## One fragment -/

/-- The globals while a message is on its way. -/
structure Receiving (inbound : Inbound) (message : List UInt8) (sent : Nat) : Prop where
  sent_le : sent ≤ message.length
  missing : inbound.dataIn.toNat = message.length - sent
  offset : inbound.dataLen.toNat = sent % 256
  front : message.length < 256 → inbound.buffer.take sent = message.take sent
  ended : message.length < 256 → message ≠ [] → sent = message.length →
    inbound.buffer.take (message.length + 1) = message ++ [0]

section Fragment

variable {inbound : Inbound} {message : List UInt8} {sent count : Nat}

/-- `mqtt_pub_start_cb` begins a message with nothing received. -/
theorem receiving_start (hlen : message.length ≤ 1024) (hsize : inbound.buffer.length = 1025) :
    Receiving (mqttPubStartCb (.ofNat message.length) inbound) message 0 ∧
      (mqttPubStartCb (.ofNat message.length) inbound).buffer.length = 1025 := by
  have htot : (UInt32.ofNat message.length).toNat = message.length := by
    rw [UInt32.toNat_ofNat']
    omega
  have hshort : ¬ UInt32.ofNat message.length > 1024 := by
    rw [gt_iff_lt, UInt32.lt_iff_toNat_lt, htot]
    exact Nat.not_lt.mpr hlen
  rw [mqttPubStartCb, if_neg hshort]
  refine ⟨⟨Nat.zero_le _, htot, rfl, fun _ ↦ rfl, fun _ hne hsent ↦ ?_⟩, hsize⟩
  exact absurd (List.length_eq_zero_iff.mp hsent.symm) hne

/-- When nothing is missing, a fragment is empty and changes nothing. -/
theorem receiving_done (h : Receiving inbound message sent) (hdone : inbound.dataIn = 0)
    (hcount : sent + count ≤ message.length) :
    count = 0 ∧ mqttPubDataCb ((message.drop sent).take count) inbound = some inbound := by
  have hmissing := h.missing
  rw [hdone, UInt32.toNat_zero] at hmissing
  refine ⟨by omega, ?_⟩
  simp [mqttPubDataCb, hdone]

/-- A fragment of a message of at most 1024 bytes stays in the buffer. -/
theorem receiving_fragment (h : Receiving inbound message sent) (hlen : message.length ≤ 1024)
    (hsize : inbound.buffer.length = 1025) (hcount : sent + count ≤ message.length) :
    ∃ inbound', mqttPubDataCb ((message.drop sent).take count) inbound = some inbound' ∧
      inbound'.buffer.length = 1025 ∧ Receiving inbound' message (sent + count) := by
  by_cases hdone : inbound.dataIn = 0
  · obtain ⟨rfl, hrun⟩ := receiving_done h hdone hcount
    exact ⟨inbound, hrun, hsize, h⟩
  · have hdata : ((message.drop sent).take count).length = count := by
      rw [List.length_take, List.length_drop]
      omega
    have hmissing := h.missing
    have hoffset := h.offset
    have hpositive : inbound.dataIn > 0 := by
      rw [gt_iff_lt, UInt32.lt_iff_toNat_lt, UInt32.toNat_zero]
      exact Nat.pos_of_ne_zero fun hzero ↦ hdone (UInt32.toNat_inj.mp hzero)
    have hcountNat : (UInt32.ofNat count).toNat = count := by
      rw [UInt32.toNat_ofNat']
      omega
    have hleft : (inbound.dataIn - .ofNat count).toNat = message.length - (sent + count) := by
      rw [UInt32.toNat_sub_of_le _ _ (UInt32.le_iff_toNat_le.mpr (by omega)), hcountNat]
      omega
    have hnext : (inbound.dataLen + .ofNat count).toNat = (sent + count) % 256 := by
      rw [UInt8.toNat_add, UInt8.toNat_ofNat', hoffset]
      omega
    obtain ⟨copied, hcopy⟩ : ∃ copied,
        memcpy inbound.buffer inbound.dataLen.toNat ((message.drop sent).take count) =
          some copied := ⟨_, memcpy_eq_some (by omega)⟩
    have hcopied := memcpy_length hcopy
    -- a short message goes behind what has arrived of it
    have hfront : message.length < 256 →
        copied.take (sent + count) = message.take (sent + count) := by
      intro hshort
      have hend := memcpy_take_end hcopy
      rw [hdata, hoffset, Nat.mod_eq_of_lt (by omega), h.front hshort] at hend
      rw [hend, List.take_add]
    by_cases hlast : inbound.dataIn - .ofNat count = 0
    · obtain ⟨ended, hend⟩ : ∃ ended,
          memcpy copied (inbound.dataLen + .ofNat count).toNat [0] = some ended :=
        ⟨_, memcpy_eq_some (by rw [hnext, List.length_singleton]; omega)⟩
      refine ⟨⟨ended, inbound.dataLen + .ofNat count, inbound.dataIn - .ofNat count⟩, ?_, ?_, ?_⟩
      · simp only [mqttPubDataCb, hpositive, if_true, hdata, bind, pure, hcopy, Option.bind_some,
          hlast, hend]
      · rw [memcpy_length hend, hcopied, hsize]
      · have hall : sent + count = message.length := by
          rw [hlast, UInt32.toNat_zero] at hleft
          omega
        have hindex : message.length < 256 →
            (inbound.dataLen + .ofNat count).toNat = sent + count := fun hshort ↦ by
          rw [hnext, Nat.mod_eq_of_lt (by omega)]
        refine ⟨hcount, hleft, hnext, fun hshort ↦ ?_, fun hshort _ _ ↦ ?_⟩
        · rw [memcpy_take hend (hindex hshort).ge, hfront hshort]
        · have hwhole := memcpy_take_end hend
          rw [hindex hshort, hfront hshort, List.length_singleton] at hwhole
          rw [← hall, hwhole, hall, List.take_length]
    · refine ⟨⟨copied, inbound.dataLen + .ofNat count, inbound.dataIn - .ofNat count⟩, ?_, ?_, ?_⟩
      · simp [mqttPubDataCb, hpositive, hdata, hcopy, hlast]
      · rw [hcopied, hsize]
      · refine ⟨hcount, hleft, hnext, hfront, fun _ _ hsent ↦ ?_⟩
        rw [← hsent, Nat.sub_self] at hleft
        exact absurd (UInt32.toNat_inj.mp hleft) hlast

/-- An empty fragment changes nothing. -/
theorem mqttPubDataCb_nil (hsize : inbound.buffer.length = 1025) :
    mqttPubDataCb [] inbound = some inbound := by
  have hroom : inbound.dataLen.toNat + ([] : List UInt8).length ≤ inbound.buffer.length := by
    have hbyte := inbound.dataLen.toNat_lt
    rw [List.length_nil]
    omega
  have hcopy : memcpy inbound.buffer inbound.dataLen.toNat [] = some inbound.buffer := by
    rw [memcpy_eq_some hroom]
    simp
  by_cases hdone : inbound.dataIn = 0
  · simp [mqttPubDataCb, hdone]
  · simp [mqttPubDataCb, hcopy, hdone]

end Fragment

/-! ## Runs -/

/-- No write has left the buffer, and a message that fits it is being received. -/
def LinkInv (link : Link) : Prop :=
  ∃ inbound, link.memory = some inbound ∧ inbound.buffer.length = 1025 ∧
    ∀ message sent, link.current = some ⟨message, sent⟩ → message.length ≤ 1024 →
      Receiving inbound message sent

/-- There is no message at first. -/
theorem linkInv_boot : LinkInv bootLink :=
  ⟨_, rfl, List.length_replicate, fun _ _ hcurrent ↦ by cases hcurrent⟩

section Step

variable {before after : Link} {event : LinkEvent}

/-- A message that starts keeps the invariant. -/
theorem reassembled_start {message : List UInt8} (hinv : LinkInv before)
    (hstep : linkStep before (.start message) = some after) :
    Reassembled ⟨before, .start message, after⟩ ∧ LinkInv after := by
  obtain ⟨inbound, hmemory, hsize, _⟩ := hinv
  simp only [linkStep] at hstep
  split at hstep
  · obtain rfl := Option.some.inj hstep
    rw [hmemory, Option.map_some]
    refine ⟨⟨by simp, by simp, by simp⟩, _, rfl, ?_, ?_⟩
    · unfold mqttPubStartCb
      split <;> exact hsize
    · rintro message' sent hcurrent hlen
      obtain ⟨rfl, rfl⟩ := Delivery.mk.inj (Option.some.inj hcurrent)
      exact (receiving_start hlen hsize).1
  · simp at hstep

/-- A fragment belongs to the message that is on its way, and leaves it on its way unless it is the
last one. -/
theorem linkStep_fragment {count : Nat} {last : Bool}
    (hstep : linkStep before (.fragment count last) = some after) :
    ∃ message sent, before.current = some ⟨message, sent⟩ ∧ sent + count ≤ message.length ∧
      (last = true → sent + count = message.length) ∧
      after.memory = before.memory.bind (mqttPubDataCb ((message.drop sent).take count)) ∧
      ∀ delivery, after.current = some delivery → delivery = ⟨message, sent + count⟩ := by
  cases hcurrent : before.current with
  | none => simp [linkStep, hcurrent] at hstep
  | some delivery =>
      obtain ⟨message, sent⟩ := delivery
      simp only [linkStep, hcurrent] at hstep
      split at hstep
      · rename_i hfragment
        obtain rfl := Option.some.inj hstep
        refine ⟨message, sent, rfl, hfragment.1, hfragment.2.2, rfl, fun delivery hafter ↦ ?_⟩
        dsimp only at hafter
        split at hafter
        · simp at hafter
        · exact (Option.some.inj hafter).symm
      · simp at hstep

/-- The last fragment of a message that fits: the buffer has all of it. -/
theorem whole_of_last {message : List UInt8} {sent count : Nat} {inbound inbound' : Inbound}
    (hcount : sent + count = message.length) (hshort : message.length < 256)
    (hempty : message = [] → inbound.buffer.take 1 = [0]) (hnow : Receiving inbound message sent)
    (hnext : Receiving inbound' message (sent + count))
    (hrun : mqttPubDataCb ((message.drop sent).take count) inbound = some inbound') :
    inbound'.buffer.take (message.length + 1) = message ++ [0] := by
  by_cases hnil : message = []
  · -- the callback does not look at an empty message
    have hmissing := hnow.missing
    rw [hnil, List.length_nil, Nat.zero_sub] at hmissing
    have hzero : inbound.dataIn = 0 := UInt32.toNat_inj.mp hmissing
    have hsame := (receiving_done hnow hzero hcount.le).2
    obtain rfl := Option.some.inj (hrun.symm.trans hsame)
    rw [hnil]
    exact hempty hnil
  · exact hnext.ended hshort hnil hcount

/-- A fragment that the counter can count keeps the invariant, and the last one completes the
message. -/
theorem reassembled_fragment {count : Nat} {last : Bool} (hinv : LinkInv before)
    (hstep : linkStep before (.fragment count last) = some after)
    (hcond : Countable ⟨before, .fragment count last, after⟩) :
    Reassembled ⟨before, .fragment count last, after⟩ ∧ LinkInv after := by
  obtain ⟨inbound, hmemory, hsize, hreceiving⟩ := hinv
  obtain ⟨message, sent, hcurrent, hcount, hlast, hafter, hdelivery⟩ := linkStep_fragment hstep
  rw [hmemory, Option.bind_some] at hafter
  have hsame : ∀ message' sent', before.current = some ⟨message', sent'⟩ → message' = message :=
    fun message' sent' h ↦ congrArg Delivery.message (Option.some.inj (h.symm.trans hcurrent))
  simp only [Countable, hcurrent, hmemory, Option.all_some] at hcond
  by_cases hlen : message.length ≤ 1024
  · have hnow := hreceiving message sent hcurrent hlen
    obtain ⟨inbound', hrun, hsize', hnext⟩ := receiving_fragment hnow hlen hsize hcount
    rw [hrun] at hafter
    rw [if_pos hlen] at hcond
    refine ⟨⟨by simp [hafter], fun count' message' sent' hevent hcurrent' _ ↦ ?_,
      fun _ _ message' sent' _ hcurrent' hlong ↦ ?_⟩, inbound', hafter, hsize',
      fun message' sent' hcurrent' _ ↦ ?_⟩
    · obtain ⟨rfl, rfl⟩ := LinkEvent.fragment.inj hevent
      obtain rfl := hsame message' sent' hcurrent'
      obtain ⟨hshort, hempty⟩ := hcond rfl
      exact ⟨inbound', hafter,
        whole_of_last (hlast rfl) hshort (by simpa using hempty) hnow hnext hrun⟩
    · obtain rfl := hsame message' sent' hcurrent'
      exact absurd hlen (Nat.not_le.mpr hlong)
    · obtain ⟨rfl, rfl⟩ := Delivery.mk.inj (hdelivery _ hcurrent')
      exact hnext
  · have hkept : mqttPubDataCb ((message.drop sent).take count) inbound = some inbound := by
      rw [if_neg hlen] at hcond
      by_cases hnil : count = 0
      · rw [hnil, List.take_zero, mqttPubDataCb_nil hsize]
      · have hzero : inbound.dataIn = 0 := by simpa using hcond hnil
        simp [mqttPubDataCb, hzero]
    rw [hkept] at hafter
    refine ⟨⟨by simp [hafter], fun _ message' sent' _ hcurrent' hshort ↦ ?_,
      fun _ _ _ _ _ _ _ ↦ hafter.trans hmemory.symm⟩, inbound, hafter, hsize,
      fun message' sent' hcurrent' hshort ↦ ?_⟩
    · obtain rfl := hsame message' sent' hcurrent'
      exact absurd hshort hlen
    · obtain ⟨rfl, rfl⟩ := Delivery.mk.inj (hdelivery _ hcurrent')
      exact absurd hshort hlen

/-- What one step does, and what it preserves. -/
theorem reassembled_step (hinv : LinkInv before) (hstep : linkStep before event = some after)
    (hcond : Countable ⟨before, event, after⟩) :
    Reassembled ⟨before, event, after⟩ ∧ LinkInv after := by
  cases event with
  | start message => exact reassembled_start hinv hstep
  | fragment count last => exact reassembled_fragment hinv hstep hcond
  | disconnect =>
      obtain ⟨inbound, hmemory, hsize, _⟩ := hinv
      obtain rfl := Option.some.inj hstep
      exact ⟨⟨by simp [hmemory], by simp, by simp⟩, inbound, hmemory, hsize, by simp⟩

end Step

/-- In every run from the start of the program whose steps all meet the condition: no write leaves
the buffer, every complete message that fits is in it after its last fragment, and the fragments of
longer messages change nothing. -/
theorem reassembled {finish : Link} {trace : List (Taken Link LinkEvent)}
    (h : Run linkStep bootLink trace finish) (hcond : ∀ taken ∈ trace, Countable taken) :
    ∀ taken ∈ trace, Reassembled taken := by
  induction h with
  | refl => simp
  | step hrun hlast ih =>
      rw [List.forall_mem_cons] at hcond ⊢
      have hinv := hrun.invariant_of_forall LinkInv hcond.2 linkInv_boot
        fun before event after hinv hstep hcount ↦ (reassembled_step hinv hstep hcount).2
      exact ⟨(reassembled_step hinv hlast hcond.1).1, ih hcond.2⟩

/-- A message in two fragments, one that is cut off, and another one. -/
theorem reassembled_twice : ∃ (trace : List (Taken Link LinkEvent)) (finish : Link),
    Run linkStep bootLink trace finish ∧ trace.length = 7 ∧
      ∀ taken ∈ trace, Reassembled taken := by
  obtain ⟨trace, finish, hrun, htest⟩ := exists_run_of_record linkStep bootLink
    [.start (lit "hello"), .fragment 2 false, .fragment 3 true, .start (lit "lost"), .disconnect,
      .start (lit "again"), .fragment 5 true]
    (fun trace _ ↦ decide (trace.length = 7 ∧ ∀ taken ∈ trace, Countable taken))
    (by decide +kernel)
  obtain ⟨hlen, hcond⟩ := of_decide_eq_true htest
  exact ⟨trace, finish, hrun, hlen, reassembled hrun hcond⟩

/-- A message of 300 bytes in one fragment gets its terminator in its own middle. -/
theorem terminator_inside_message : ¬ ∀ (finish : Link) (trace : List (Taken Link LinkEvent)),
    Run linkStep bootLink trace finish → ∀ taken ∈ trace, Reassembled taken := by
  intro hclaim
  let message : List UInt8 := List.replicate 300 97
  let started : Link := ⟨some ⟨List.replicate 1025 0, 0, 300⟩, some ⟨message, 0⟩⟩
  have hstart : linkStep bootLink (.start message) = some started := by
    have hshort : ¬ (300 : UInt32) > 1024 := by decide
    have hlen : message.length = 300 := List.length_replicate
    simp only [linkStep, hlen]
    rfl
  have htest : (linkStep started (.fragment 300 true)).any (fun link ↦
      link.memory.any fun inbound ↦ decide (inbound.buffer[44]? = some 0)) = true := by
    decide +kernel
  cases hfragment : linkStep started (.fragment 300 true) with
  | none => simp [hfragment] at htest
  | some finish =>
      rw [hfragment] at htest
      have hrun := Run.step (.step .refl hstart) hfragment
      have hlen : message.length = 300 := List.length_replicate
      obtain ⟨inbound, hmemory, hwhole⟩ := (hclaim finish _ hrun _ List.mem_cons_self).whole
        300 message 0 rfl rfl (by rw [hlen]; decide)
      replace hmemory : finish.memory = some inbound := hmemory
      rw [Option.any_some, hmemory, Option.any_some] at htest
      have hbyte : inbound.buffer[44]? = some 0 := of_decide_eq_true htest
      have htake := congrArg (·[44]?) hwhole
      rw [List.getElem?_take_of_lt (by rw [hlen]; decide), hbyte] at htake
      exact absurd htake (by decide)

end DirtieNode.Connect
