import DirtieNode.AccessPoint.Clients
import DirtieNode.AccessPoint.Options

/-!
# Replies

A reply is the message that was received with another opcode, another address and other options.
The options are whole fields with an end mark, so that `opt_find` finds each of them in what is
sent, whatever is behind it.
-/

namespace DirtieNode.AccessPoint

open CString Tlv

/-- The length of a reply up to the end mark. -/
def dhcpReplySize : Nat := 240 + 34

/-- A field with an address. -/
def addressField (code : UInt8) (addr : List UInt8) (h : addr.length = 4) : Field where
  code := code
  data := addr
  fits := by
    rw [h]
    exact Nat.lt_of_sub_eq_succ rfl

/-- The options of a reply. -/
def replyFields (d : DhcpServer) (hip : d.ip.length = 4) (hnm : d.nm.length = 4)
    (msgType : UInt8) : List Field :=
  [⟨dhcpOptMsgType, [msgType], Nat.lt_of_sub_eq_succ rfl⟩, addressField dhcpOptServerId d.ip hip,
    addressField dhcpOptSubnetMask d.nm hnm, addressField dhcpOptRouter d.ip hip,
    addressField dhcpOptDns d.ip hip,
    ⟨dhcpOptIpLeaseTime, [0x00, 0x01, 0x51, 0x80], Nat.lt_of_sub_eq_succ rfl⟩]

/-- The data of an option, read as `opt_find` finds it. -/
def readOption (opt : List UInt8) (cmd : UInt8) : Option (List UInt8) :=
  (optFind opt cmd).join.bind fun i ↦ (opt[i + 1]?).bind fun len ↦ load opt (i + 2) len.toNat

/-- A reply that keeps the transaction of the message: its identifier, flags, hardware address and
cookie, with the address of an entry and options that can be read back from what is sent. -/
structure ReplyTo (d : DhcpServer) (hip : d.ip.length = 4) (hnm : d.nm.length = 4) (e : Datagram)
    (r : DhcpReply) : Prop where
  size : r.bytes.length = dhcpReplySize
  opcode : r.bytes[0]? = some 2
  transaction : (r.bytes.drop 1).take 15 = (e.msg.drop 1).take 15
  entry : r.yi < dhcpsMaxIp
  address : r.yiaddr = d.address r.yi
  chaddr : (r.bytes.drop chaddrOffset).take macLen = e.chaddr
  rest : (r.bytes.drop 20).take 220 = (e.msg.drop 20).take 220
  options : ∀ behind cmd, cmd ≠ dhcpOptEnd →
    readOption (r.bytes.drop (optionsOffset + 4) ++ behind) cmd =
      lookup (replyFields d hip hnm r.msgType) cmd

/-! ## Reading options back -/

section Read

variable {fields : List Field} {cmd : UInt8}

/-- `opt_find` in whole fields with an end mark. -/
theorem optFind_of_search {opt behind : List UInt8} {r : Option Nat} (hsize : opt.length ≤ optSize)
    (hcmd : cmd ≠ dhcpOptEnd) (h : Search cmd 0 opt r) : optFind (opt ++ behind) cmd = some r :=
  optFindLoop_append behind
    ((optFindLoop_iff_search (n := 154) hsize hcmd (by omega) (by omega)).mpr h)

/-- The data of a field that `opt_find` has found. -/
theorem readOption_of_field {opt front rest : List UInt8} {field : Field}
    (hopt : opt = front ++ (field.bytes ++ rest))
    (hfind : optFind opt cmd = some (some front.length)) :
    readOption opt cmd = some field.data := by
  have hlen : opt[front.length + 1]? = some field.data.length.toUInt8 := by
    rw [hopt, List.getElem?_append_right (by omega), Nat.add_sub_cancel_left]
    rfl
  have hsplit : opt =
      (front ++ [field.code, field.data.length.toUInt8]) ++ (field.data ++ rest) := by
    rw [hopt, Field.bytes]
    simp
  have hstart : (front ++ [field.code, field.data.length.toUInt8]).length = front.length + 2 := by
    rw [List.length_append]
    rfl
  have hroom : front.length + 2 + field.data.length ≤ opt.length := by
    rw [hsplit, List.length_append, hstart, List.length_append]
    omega
  rw [readOption, hfind]
  show (opt[front.length + 1]?).bind _ = _
  rw [hlen, Option.bind_some, field.length_byte, load_eq_some hroom, hsplit,
    List.drop_left' hstart, List.take_left]

/-- The options that are found in whole fields are those of the fields. -/
theorem readOption_encode (behind : List UInt8) (hcmd : cmd ≠ dhcpOptEnd)
    (hend : ∀ field ∈ fields, field.code ≠ dhcpOptEnd)
    (hsize : (encode fields).length + 1 ≤ optSize) :
    readOption (encode fields ++ dhcpOptEnd :: behind) cmd = lookup fields cmd := by
  have hbytes : (encode fields ++ [dhcpOptEnd]).length ≤ optSize := by
    rw [List.length_append]
    exact hsize
  rw [show encode fields ++ dhcpOptEnd :: behind = encode fields ++ [dhcpOptEnd] ++ behind by
    rw [List.append_assoc]; rfl]
  cases hlookup : lookup fields cmd with
  | none =>
      have hother := lookup_eq_none hlookup
      have hsearch : Search cmd 0 (encode fields ++ [dhcpOptEnd]) none :=
        .ended fields [] (fun field hmem ↦ ⟨hend field hmem, hother field hmem⟩) rfl
      rw [readOption, optFind_of_search hbytes hcmd hsearch]
      rfl
  | some data =>
      obtain ⟨front, field, back, rfl, hfront, hcode, rfl⟩ := exists_of_lookup hlookup
      have hs : encode (front ++ field :: back) ++ [dhcpOptEnd] =
          encode front ++ (field.bytes ++ (encode back ++ [dhcpOptEnd])) := by
        rw [encode, List.flatMap_append, List.flatMap_cons, List.append_assoc, List.append_assoc]
        rfl
      have hsearch : Search cmd 0 (encode (front ++ field :: back) ++ [dhcpOptEnd])
          (some (0 + (encode front).length)) :=
        .found front _ (fun other hmem ↦ ⟨hend other (List.mem_append_left _ hmem),
          hfront other hmem⟩) (by rw [hs, ← hcode]; rfl)
      rw [Nat.zero_add] at hsearch
      have hopt : encode (front ++ field :: back) ++ [dhcpOptEnd] ++ behind =
          encode front ++ (field.bytes ++ (encode back ++ [dhcpOptEnd] ++ behind)) := by
        rw [hs, List.append_assoc, List.append_assoc]
      exact readOption_of_field hopt (optFind_of_search hbytes hcmd hsearch)

end Read

/-! ## The bytes of a reply -/

section Bytes

variable {d : DhcpServer} {msg : List UInt8} {type : UInt8} {yi : Nat}

/-- The options of a reply are seven fields and the end mark. -/
theorem replyOptions_eq_encode (hip : d.ip.length = 4) (hnm : d.nm.length = 4) :
    replyOptions d type = encode (replyFields d hip hnm type) ++ [dhcpOptEnd] := by
  have hip' : d.ip.length.toUInt8 = 4 := by
    rw [hip]
    rfl
  have hnm' : d.nm.length.toUInt8 = 4 := by
    rw [hnm]
    rfl
  simp [replyOptions, replyFields, encode, Field.bytes, addressField, hip', hnm']

/-- The options of a reply take 34 bytes. -/
theorem replyOptions_length (hip : d.ip.length = 4) (hnm : d.nm.length = 4) :
    (replyOptions d type).length = 34 := by
  simp [replyOptions, hip, hnm]

/-- A reply in front of its options: the opcode, and the parts of the message around the address. -/
theorem dhcpReply_bytes (d : DhcpServer) (msg : List UInt8) (type : UInt8) (yi : Nat) :
    (dhcpReply d msg type yi).bytes = [2] ++ ((msg.drop 1).take 15 ++ (d.address yi ++
      ((msg.drop 20).take 220 ++ replyOptions d type))) := by
  show dhcpOffer :: (msg.drop 1).take 15 ++ d.address yi ++ (msg.drop 20).take 220 ++
    replyOptions d type = _
  simp [dhcpOffer]

/-- An address has four bytes. -/
theorem address_length (hip : d.ip.length = 4) : (d.address yi).length = 4 := by
  rw [DhcpServer.address, List.length_append, List.length_take, hip]
  rfl

/-- Every reply has the same size. -/
theorem dhcpReply_length (hip : d.ip.length = 4) (hnm : d.nm.length = 4)
    (hmsg : dhcpMsgSize ≤ msg.length) :
    (dhcpReply d msg type yi).bytes.length = dhcpReplySize := by
  have hmin : dhcpMsgSize = 548 := rfl
  rw [dhcpReply_bytes, List.length_append, List.length_append, List.length_append,
    List.length_append, List.length_take, List.length_drop, List.length_take, List.length_drop,
    address_length hip, replyOptions_length hip hnm, dhcpReplySize]
  show 1 + _ = _
  omega

/-- The parts of a reply: what stands behind the opcode, behind the address, and behind the
cookie. -/
theorem dhcpReply_parts (hip : d.ip.length = 4) (hmsg : dhcpMsgSize ≤ msg.length) :
    ((dhcpReply d msg type yi).bytes.drop 1).take 15 = (msg.drop 1).take 15 ∧
      ((dhcpReply d msg type yi).bytes.drop 20).take 220 = (msg.drop 20).take 220 ∧
        (dhcpReply d msg type yi).bytes.drop 240 = replyOptions d type := by
  have hmin : dhcpMsgSize = 548 := rfl
  have hfirst : ((msg.drop 1).take 15).length = 15 := by
    rw [List.length_take, List.length_drop]
    omega
  have hsecond : ((msg.drop 20).take 220).length = 220 := by
    rw [List.length_take, List.length_drop]
    omega
  have haddr : (d.address yi).length = 4 := address_length hip
  rw [dhcpReply_bytes]
  have hone : ([2] ++ ((msg.drop 1).take 15 ++ (d.address yi ++ ((msg.drop 20).take 220 ++
      replyOptions d type)))).drop 1 = (msg.drop 1).take 15 ++ (d.address yi ++
        ((msg.drop 20).take 220 ++ replyOptions d type)) := rfl
  have htwenty : ([2] ++ ((msg.drop 1).take 15 ++ (d.address yi ++ ((msg.drop 20).take 220 ++
      replyOptions d type)))).drop 20 = (msg.drop 20).take 220 ++ replyOptions d type := by
    rw [show 20 = 1 + (15 + 4) from rfl, ← List.drop_drop, hone, ← List.drop_drop,
      List.drop_left' hfirst, List.drop_left' haddr]
  refine ⟨?_, ?_, ?_⟩
  · rw [hone, List.take_left' hfirst]
  · rw [htwenty, List.take_left' hsecond]
  · rw [show 240 = 20 + 220 from rfl, ← List.drop_drop, htwenty, List.drop_left' hsecond]

end Bytes

/-- Every reply that is built for a message answers it. -/
theorem dhcpReply_replyTo {d : DhcpServer} (hip : d.ip.length = 4) (hnm : d.nm.length = 4)
    (e : Datagram) (type : UInt8) {yi : Nat} (hyi : yi < dhcpsMaxIp) :
    ReplyTo d hip hnm e (dhcpReply d e.msg type yi) := by
  obtain ⟨hfirst, hsecond, hoptions⟩ :=
    @dhcpReply_parts d e.msg type yi hip e.msg_length
  refine ⟨dhcpReply_length hip hnm e.msg_length, ?_, hfirst, hyi,
    dhcpReply_yiaddr hip e.msg_length type yi, ?_, hsecond, ?_⟩
  · rw [dhcpReply_bytes]
    rfl
  · -- the hardware address is in the part behind the address
    have hpart := congrArg (fun part ↦ (part.drop 8).take macLen) hsecond
    simp only [List.drop_take, List.drop_drop, List.take_take] at hpart
    exact hpart
  · intro behind cmd hcmd
    show readOption ((dhcpReply d e.msg type yi).bytes.drop 240 ++ behind) cmd = _
    rw [hoptions, replyOptions_eq_encode hip hnm, List.append_assoc]
    refine readOption_encode behind hcmd ?_ ?_
    · intro field hmem
      simp only [replyFields, addressField, List.mem_cons, List.not_mem_nil, or_false] at hmem
      obtain rfl | rfl | rfl | rfl | rfl | rfl := hmem <;> exact of_decide_eq_true rfl
    · have hlength : (replyOptions d type).length = 34 := replyOptions_length hip hnm
      rw [replyOptions_eq_encode hip hnm, List.length_append] at hlength
      show (encode (replyFields d hip hnm type)).length + [dhcpOptEnd].length ≤ 308
      omega

/-- Whatever the table and the clock are, a datagram that is answered has a message type that the
server knows, and the reply answers it. -/
theorem replies_answer {d d' : DhcpServer} (hip : d.ip.length = 4) (hnm : d.nm.length = 4)
    {e : Datagram} {r : DhcpReply}
    (h : dhcpServerProcess d e.packet e.stack e.clock = some (some r, d')) :
    ReplyTo d hip hnm e r ∧
      ((e.IsMessage dhcpDiscover ∧ r.msgType = dhcpOffer) ∨
        (e.IsMessage dhcpRequest ∧ r.msgType = dhcpAck)) := by
  obtain ⟨hnone, -⟩ | ⟨hmessage, hdiscover⟩ | ⟨hmessage, hrequest⟩ := message_cases h
  · exact absurd hnone (by simp)
  · obtain ⟨hoffer, hyi, -⟩ := processDiscover_offer _ _ _ _ hdiscover
    rw [hoffer]
    exact ⟨dhcpReply_replyTo hip hnm e dhcpOffer hyi, .inl ⟨hmessage, rfl⟩⟩
  · obtain ⟨hnone, -⟩ | ⟨yi, hyi, -, hack, -⟩ := processRequest_cases hmessage hrequest
    · exact absurd hnone (by simp)
    · obtain rfl := Option.some.inj hack
      exact ⟨dhcpReply_replyTo hip hnm e dhcpAck hyi, .inr ⟨hmessage, rfl⟩⟩

/-- The first client of a new server reads the lease time in what it is sent. -/
theorem replies_answer_first : ∃ r d',
    dhcpServerProcess (dhcpServerInit [192, 168, 4, 1] [255, 255, 255, 0])
        (clientMessage [2, 0, 0, 0, 0, 1] dhcpDiscover 0).packet
        (clientMessage [2, 0, 0, 0, 0, 1] dhcpDiscover 0).stack
        (clientMessage [2, 0, 0, 0, 0, 1] dhcpDiscover 0).clock = some (some r, d') ∧
      readOption (r.bytes.drop (optionsOffset + 4) ++ []) dhcpOptIpLeaseTime =
        some [0x00, 0x01, 0x51, 0x80] := by
  have hanswered : (dhcpServerProcess (dhcpServerInit [192, 168, 4, 1] [255, 255, 255, 0])
      (clientMessage [2, 0, 0, 0, 0, 1] dhcpDiscover 0).packet
      (clientMessage [2, 0, 0, 0, 0, 1] dhcpDiscover 0).stack
      (clientMessage [2, 0, 0, 0, 0, 1] dhcpDiscover 0).clock).map (fun result ↦
        result.1.isSome) = some true := by
    decide +kernel
  obtain ⟨⟨reply, d'⟩, hprocess, hreply⟩ := Option.map_eq_some_iff.mp hanswered
  obtain ⟨r, rfl⟩ := Option.isSome_iff_exists.mp hreply
  have hip : (dhcpServerInit [192, 168, 4, 1] [255, 255, 255, 0]).ip.length = 4 := rfl
  have hnm : (dhcpServerInit [192, 168, 4, 1] [255, 255, 255, 0]).nm.length = 4 := rfl
  have hend : dhcpOptIpLeaseTime ≠ dhcpOptEnd := by decide
  refine ⟨r, d', hprocess, ?_⟩
  rw [(replies_answer hip hnm hprocess).1.options [] dhcpOptIpLeaseTime hend]
  rfl

end DirtieNode.AccessPoint
