import DirtieNode.AccessPoint.Offer
import DirtieNode.Library.Tlv

/-!
# Options of short packets

`opt_find` knows the size of the options in a message, but not how many of them were received, and
the bytes behind a field that it has looked at are read without a test. All that is examined has
been received when the options are whole fields up to the one that is searched for, to an end mark,
or to a length that leads out of the options, and the fields that are found are long enough.
-/

namespace DirtieNode.AccessPoint

open CString Tlv

/-- The size of the options behind the magic cookie. -/
def optSize : Nat := dhcpMsgSize - (optionsOffset + 4)

/-- The indices that the loop of `opt_find` examines from index `i` on, with the first one outside
of the object if there is one. -/
def optFindExamined (opt : List UInt8) (cmd : UInt8) : Nat → Nat → List Nat
  | 0, _ => []
  | fuel + 1, i =>
      if i < 308 then
        match opt[i]? with
        | none => [i]
        | some b =>
            if b = dhcpOptEnd ∨ b = cmd then [i]
            else
              match opt[i + 1]? with
              | none => [i, i + 1]
              | some len => i :: (i + 1) :: optFindExamined opt cmd fuel (i + 2 + len.toNat)
      else []

/-- The indices that the case `DHCPREQUEST` examines. The last byte of the address is only looked at
when the others are those of the server. -/
def requestExamined (d : DhcpServer) (opt : List UInt8) : List Nat :=
  optFindExamined opt dhcpOptRequestedIp 155 0 ++
    match optFind opt dhcpOptRequestedIp with
    | some (some o) =>
        [o + 2, o + 3, o + 4] ++ if load opt (o + 2) 3 = some (d.ip.take 3) then [o + 5] else []
    | _ => []

/-- The indices of the options that `dhcp_server_process` examines in a message. -/
def optionsExamined (d : DhcpServer) (opt : List UInt8) : List Nat :=
  optFindExamined opt dhcpOptMsgType 155 0 ++
    match optFind opt dhcpOptMsgType with
    | some (some m) =>
        (m + 2) :: if opt[m + 2]? = some dhcpRequest then requestExamined d opt else []
    | _ => []

/-- The options that have been copied from a packet. -/
def Datagram.received (e : Datagram) : List UInt8 :=
  (e.packet.take dhcpMsgSize).drop (optionsOffset + 4)

/-- A datagram is processed without reading more of the options than there are: the loop of
`opt_find` ends, whatever can be read behind the message, and all that is examined is in the array
and has been copied from the packet. -/
structure NeverOverReads (d : DhcpServer) (e : Datagram) : Prop where
  terminates : ∀ cmd behind, behind ≠ [] → (optFind (e.opt ++ behind) cmd).isSome
  inside : ∀ i ∈ optionsExamined d e.opt,
    optionsOffset + 4 + i < dhcpMsgSize ∧ optionsOffset + 4 + i < e.packet.length

/-- The loop of `opt_find` goes on behind a field with this code. -/
def Passed (cmd code : UInt8) : Prop :=
  code ≠ dhcpOptEnd ∧ code ≠ cmd

/-- Where a search for an option from offset `i` on ends in the bytes that are left: at the option,
at the end mark, or at a length that leads out of the options. All the fields in front are whole. -/
inductive Search (cmd : UInt8) (i : Nat) (s : List UInt8) : Option Nat → Prop
  | found (fields : List Field) (rest : List UInt8)
      (hfields : ∀ field ∈ fields, Passed cmd field.code)
      (hs : s = encode fields ++ cmd :: rest) : Search cmd i s (some (i + (encode fields).length))
  | ended (fields : List Field) (rest : List UInt8)
      (hfields : ∀ field ∈ fields, Passed cmd field.code)
      (hs : s = encode fields ++ dhcpOptEnd :: rest) : Search cmd i s none
  | leaves (fields : List Field) (code len : UInt8) (rest : List UInt8)
      (hfields : ∀ field ∈ fields, Passed cmd field.code) (hcode : Passed cmd code)
      (hs : s = encode fields ++ code :: len :: rest)
      (hout : optSize ≤ i + (encode fields).length + 2 + len.toNat) : Search cmd i s none

/-- The received options have the message type, and the fields that its case needs. -/
def OptionsReceived (d : DhcpServer) (received : List UInt8) : Prop :=
  ∃ found, Search dhcpOptMsgType 0 received found ∧
    ∀ m, found = some m → m + 2 < received.length ∧
      (received[m + 2]? = some dhcpRequest →
        ∃ found', Search dhcpOptRequestedIp 0 received found' ∧
          ∀ o, found' = some o → o + 4 < received.length ∧
            ((received.drop (o + 2)).take 3 = d.ip.take 3 → o + 5 < received.length))

/-! ## The loop of `opt_find` -/

section Loop

variable {opt received behind : List UInt8} {cmd : UInt8} {n fuel i : Nat}

/-- The search ends behind the options. -/
theorem optFindLoop_out (h : 308 ≤ i) : optFindLoop opt cmd (fuel + 1) i = some none :=
  if_neg (Nat.not_lt.mpr h)

/-- An iteration of the loop. -/
theorem optFindLoop_next (h : i < 308) :
    optFindLoop opt cmd (fuel + 1) i = (opt[i]?).bind fun b ↦
      if b = dhcpOptEnd then some none
      else if b = cmd then some (some i)
      else (opt[i + 1]?).bind fun len ↦ optFindLoop opt cmd fuel (i + 2 + len.toNat) :=
  if_pos h

/-- Each iteration moves on by two bytes at least, so that the loop ends in an object which goes on
behind the options. -/
theorem optFindLoop_terminates (hopt : 308 < opt.length) (hfuel : 308 ≤ i + 2 * n) :
    (optFindLoop opt cmd (n + 1) i).isSome := by
  induction n generalizing i with
  | zero =>
      rw [optFindLoop_out (show 308 ≤ i by omega)]
      rfl
  | succ n ih =>
      by_cases hi : i < 308
      · rw [optFindLoop_next hi, List.getElem?_eq_getElem (show i < opt.length by omega),
          List.getElem?_eq_getElem (show i + 1 < opt.length by omega), Option.bind_some,
          Option.bind_some]
        split
        · rfl
        · split
          · rfl
          · exact ih (by omega)
      · rw [optFindLoop_out (Nat.not_lt.mp hi)]
        rfl

/-- A search that ends in the received bytes does not depend on those behind them. -/
theorem optFindLoop_append (behind : List UInt8) {r : Option Nat}
    (h : optFindLoop received cmd fuel i = some r) :
    optFindLoop (received ++ behind) cmd fuel i = some r := by
  induction fuel generalizing i with
  | zero => exact absurd h (by simp [optFindLoop])
  | succ fuel ih =>
      by_cases hi : i < 308
      · rw [optFindLoop_next hi] at h ⊢
        obtain ⟨b, hb, h⟩ := Option.bind_eq_some_iff.mp h
        rw [List.getElem?_append_left (List.getElem?_eq_some_iff.mp hb).1, hb, Option.bind_some]
        split at h
        · rename_i hend
          rw [if_pos hend, h]
        · rename_i hend
          rw [if_neg hend]
          split at h
          · rename_i hcmd
            rw [if_pos hcmd, h]
          · rename_i hcmd
            obtain ⟨len, hlen, h⟩ := Option.bind_eq_some_iff.mp h
            rw [if_neg hcmd, List.getElem?_append_left (List.getElem?_eq_some_iff.mp hlen).1, hlen,
              Option.bind_some]
            exact ih h
      · rw [optFindLoop_out (Nat.not_lt.mp hi)] at h ⊢
        exact h

/-- Nothing is examined behind the options. -/
theorem optFindExamined_out (h : 308 ≤ i) : optFindExamined opt cmd (fuel + 1) i = [] :=
  if_neg (Nat.not_lt.mpr h)

/-- What an iteration examines. -/
theorem optFindExamined_next (h : i < 308) :
    optFindExamined opt cmd (fuel + 1) i =
      match opt[i]? with
      | none => [i]
      | some b =>
          if b = dhcpOptEnd ∨ b = cmd then [i]
          else
            match opt[i + 1]? with
            | none => [i, i + 1]
            | some len => i :: (i + 1) :: optFindExamined opt cmd fuel (i + 2 + len.toNat) :=
  if_pos h

/-- The byte at the index is the first that an iteration examines. -/
theorem mem_optFindExamined (h : i < 308) : i ∈ optFindExamined opt cmd (fuel + 1) i := by
  rw [optFindExamined_next h]
  split
  · exact List.mem_cons_self
  · split
    · exact List.mem_cons_self
    · split <;> exact List.mem_cons_self

/-- All that the loop examines has been received when the loop ends in what has been received. -/
theorem examined_received_iff (behind : List UInt8) (hfuel : 308 ≤ i + 2 * n) :
    (∀ j ∈ optFindExamined (received ++ behind) cmd (n + 1) i, j < received.length) ↔
      (optFindLoop received cmd (n + 1) i).isSome := by
  induction n generalizing i with
  | zero =>
      have hout : 308 ≤ i := by omega
      rw [optFindExamined_out hout, optFindLoop_out hout]
      exact iff_of_true (fun j hj ↦ absurd hj List.not_mem_nil) rfl
  | succ n ih =>
      by_cases hi : i < 308
      swap
      · rw [optFindExamined_out (Nat.not_lt.mp hi), optFindLoop_out (Nat.not_lt.mp hi)]
        exact iff_of_true (fun j hj ↦ absurd hj List.not_mem_nil) rfl
      by_cases hlt : i < received.length
      swap
      · -- the byte at the index is behind what has been received
        rw [optFindLoop_next hi, List.getElem?_eq_none (Nat.not_lt.mp hlt), Option.bind_none]
        exact iff_of_false (fun hall ↦ hlt (hall i (mem_optFindExamined hi))) (by simp)
      have hb : received[i]? = some received[i] := List.getElem?_eq_getElem hlt
      rw [optFindExamined_next hi, optFindLoop_next hi, List.getElem?_append_left hlt, hb,
        Option.bind_some]
      dsimp only
      by_cases hend : received[i] = dhcpOptEnd
      · rw [if_pos (.inl hend), if_pos hend]
        exact iff_of_true (by simpa using hlt) rfl
      by_cases hcmd : received[i] = cmd
      · rw [if_pos (.inr hcmd), if_neg hend, if_pos hcmd]
        exact iff_of_true (by simpa using hlt) rfl
      rw [if_neg (not_or.mpr ⟨hend, hcmd⟩), if_neg hend, if_neg hcmd]
      by_cases hlen : i + 1 < received.length
      swap
      · -- the length of the field is behind what has been received
        rw [List.getElem?_eq_none (Nat.not_lt.mp hlen), Option.bind_none]
        refine iff_of_false (fun hall ↦ hlen (hall (i + 1) ?_)) (by simp)
        split <;> simp
      have hl : received[i + 1]? = some received[i + 1] := List.getElem?_eq_getElem hlen
      rw [List.getElem?_append_left hlen, hl, Option.bind_some, ← ih (by omega)]
      dsimp only
      simp only [List.forall_mem_cons, hlt, hlen, true_and]

end Loop

/-! ## Searches in whole fields -/

section Fields

variable {received s rest : List UInt8} {cmd b : UInt8} {n i : Nat} {r : Option Nat} {field : Field}

/-- A field in front of the bytes is passed. -/
theorem Search.pass (hpassed : Passed cmd field.code)
    (h : Search cmd (i + field.bytes.length) s r) : Search cmd i (field.bytes ++ s) r := by
  have hall : ∀ {fields : List Field}, (∀ field ∈ fields, Passed cmd field.code) →
      ∀ field' ∈ field :: fields, Passed cmd field'.code :=
    fun hfields ↦ List.forall_mem_cons.mpr ⟨hpassed, hfields⟩
  cases h with
  | found fields rest hfields hs =>
      rw [Nat.add_assoc, ← encode_cons_length]
      exact .found (field :: fields) rest (hall hfields)
        (by rw [hs, encode_cons, List.append_assoc])
  | ended fields rest hfields hs =>
      exact .ended (field :: fields) rest (hall hfields)
        (by rw [hs, encode_cons, List.append_assoc])
  | leaves fields code len rest hfields hcode hs hout =>
      rw [Nat.add_assoc i, ← encode_cons_length] at hout
      exact .leaves (field :: fields) code len rest (hall hfields) hcode
        (by rw [hs, encode_cons, List.append_assoc]) hout

/-- The first byte decides where a search ends, or it is the code of a field that is passed. -/
theorem Search.first (h : Search cmd i s r) :
    (∃ rest, s = cmd :: rest ∧ r = some i) ∨ (∃ rest, s = dhcpOptEnd :: rest ∧ r = none) ∨
      (∃ code len rest, s = code :: len :: rest ∧ Passed cmd code ∧
        optSize ≤ i + 2 + len.toNat ∧ r = none) ∨
      ∃ (field : Field) (s' : List UInt8), s = field.bytes ++ s' ∧ Passed cmd field.code ∧
        Search cmd (i + field.bytes.length) s' r := by
  cases h with
  | found fields rest hfields hs =>
      cases fields with
      | nil => exact .inl ⟨rest, hs, rfl⟩
      | cons field fields =>
          rw [List.forall_mem_cons] at hfields
          rw [encode_cons, List.append_assoc] at hs
          rw [encode_cons_length, ← Nat.add_assoc]
          exact .inr (.inr (.inr ⟨field, _, hs, hfields.1, .found fields rest hfields.2 rfl⟩))
  | ended fields rest hfields hs =>
      cases fields with
      | nil => exact .inr (.inl ⟨rest, hs, rfl⟩)
      | cons field fields =>
          rw [List.forall_mem_cons] at hfields
          rw [encode_cons, List.append_assoc] at hs
          exact .inr (.inr (.inr ⟨field, _, hs, hfields.1, .ended fields rest hfields.2 rfl⟩))
  | leaves fields code len rest hfields hcode hs hout =>
      cases fields with
      | nil => exact .inr (.inr (.inl ⟨code, len, rest, hs, hcode, hout, rfl⟩))
      | cons field fields =>
          rw [List.forall_mem_cons] at hfields
          rw [encode_cons, List.append_assoc] at hs
          rw [encode_cons_length, ← Nat.add_assoc] at hout
          exact .inr (.inr (.inr ⟨field, _, hs, hfields.1,
            .leaves fields code len rest hfields.2 hcode rfl hout⟩))

/-- A search that ends inside has bytes to look at. -/
theorem Search.ne_nil (h : Search cmd i s r) : s ≠ [] := by
  intro hnil
  cases h with
  | found _ _ _ hs => simp [hnil] at hs
  | ended _ _ _ hs => simp [hnil] at hs
  | leaves _ _ _ _ _ _ hs _ => simp [hnil] at hs

/-- The loop of `opt_find` ends in what has been received just when the received options are whole
fields up to where it ends. -/
theorem optFindLoop_iff_search (hsize : received.length ≤ optSize) (hcmd : cmd ≠ dhcpOptEnd)
    (hi : i < 308) (hfuel : 308 ≤ i + 2 * n) :
    optFindLoop received cmd (n + 1) i = some r ↔ Search cmd i (received.drop i) r := by
  have hopt : optSize = 308 := rfl
  induction n generalizing i with
  | zero => omega
  | succ n ih =>
      rw [optFindLoop_next hi]
      constructor
      · intro h
        obtain ⟨b, hb, h⟩ := Option.bind_eq_some_iff.mp h
        obtain ⟨hlt, rfl⟩ := List.getElem?_eq_some_iff.mp hb
        rw [List.drop_eq_getElem_cons hlt]
        by_cases hend : received[i] = dhcpOptEnd
        · rw [if_pos hend] at h
          obtain rfl := Option.some.inj h
          exact .ended [] _ (by simp) (by rw [hend]; rfl)
        rw [if_neg hend] at h
        by_cases hfound : received[i] = cmd
        · rw [if_pos hfound] at h
          obtain rfl := Option.some.inj h
          exact .found [] _ (by simp) (by rw [hfound]; rfl)
        rw [if_neg hfound] at h
        obtain ⟨len, hl, h⟩ := Option.bind_eq_some_iff.mp h
        obtain ⟨hlen, rfl⟩ := List.getElem?_eq_some_iff.mp hl
        rw [List.drop_eq_getElem_cons hlen]
        by_cases hout : 308 ≤ i + 2 + received[i + 1].toNat
        · rw [optFindLoop_out hout] at h
          obtain rfl := Option.some.inj h
          exact .leaves [] _ _ _ (by simp) ⟨hend, hfound⟩ rfl hout
        · -- the field is whole, since the next one has been received
          have hnext := h
          rw [optFindLoop_next (Nat.not_le.mp hout)] at hnext
          obtain ⟨c, hc, -⟩ := Option.bind_eq_some_iff.mp hnext
          have hinside := (List.getElem?_eq_some_iff.mp hc).1
          obtain ⟨field, hcode, hdata, hbytes⟩ := exists_field received[i] received[i + 1]
            (received.drop (i + 1 + 1)) (by rw [List.length_drop]; omega)
          have hlength : i + 2 + received[i + 1].toNat = i + field.bytes.length := by
            rw [field.bytes_length, hdata]
            omega
          rw [hlength] at h
          have hrest := (ih (show i + field.bytes.length < 308 by omega) (by omega)).mp h
          rw [hbytes, List.drop_drop, show i + 1 + 1 + received[i + 1].toNat =
            i + field.bytes.length by omega]
          exact hrest.pass (hcode ▸ ⟨hend, hfound⟩)
      · intro h
        have hget : ∀ k, received[i + k]? = (received.drop i)[k]? := by
          intro k
          rw [List.getElem?_drop]
        have hfirst : received[i]? = (received.drop i)[0]? := hget 0
        rcases h.first with ⟨rest, hs, rfl⟩ | ⟨rest, hs, rfl⟩ | hleaves | hpass
        · rw [hfirst, hs, List.getElem?_cons_zero, Option.bind_some, if_neg hcmd, if_pos rfl]
        · rw [hfirst, hs, List.getElem?_cons_zero, Option.bind_some, if_pos rfl]
        · obtain ⟨code, len, rest, hs, hcode, hout, rfl⟩ := hleaves
          rw [hfirst, hget 1, hs]
          show (if code = dhcpOptEnd then some none else if code = cmd then _ else
            optFindLoop received cmd (n + 1) (i + 2 + len.toNat)) = _
          rw [if_neg hcode.1, if_neg hcode.2, optFindLoop_out hout]
        · obtain ⟨field, s', hs, hpassed, hrest⟩ := hpass
          have hs' : received.drop (i + field.bytes.length) = s' := by
            rw [← List.drop_drop, hs, List.drop_left]
          have hinside : i + field.bytes.length < received.length := by
            by_contra hlong
            rw [List.drop_eq_nil_of_le (Nat.not_lt.mp hlong)] at hs'
            exact hrest.ne_nil hs'.symm
          rw [← hs'] at hrest
          rw [hfirst, hget 1, hs]
          show (if field.code = dhcpOptEnd then some none else if field.code = cmd then _ else
            optFindLoop received cmd (n + 1) (i + 2 + field.data.length.toUInt8.toNat)) = _
          rw [if_neg hpassed.1, if_neg hpassed.2, field.length_byte, Nat.add_assoc,
            ← field.bytes_length]
          have hlength := field.bytes_length
          exact (ih (by omega) (by omega)).mpr hrest

end Fields

/-! ## What a message needs -/

/-- `opt_find` and what follows it end in the received options. -/
def EndsInside (d : DhcpServer) (received : List UInt8) : Prop :=
  ∃ found, optFind received dhcpOptMsgType = some found ∧
    ∀ m, found = some m → m + 2 < received.length ∧
      (received[m + 2]? = some dhcpRequest →
        ∃ found', optFind received dhcpOptRequestedIp = some found' ∧
          ∀ o, found' = some o → o + 4 < received.length ∧
            ((received.drop (o + 2)).take 3 = d.ip.take 3 → o + 5 < received.length))

section Received

variable {received : List UInt8} (d : DhcpServer)

/-- The options were received exactly when the search for each of them ends inside. -/
theorem optionsReceived_iff (hsize : received.length ≤ optSize) :
    OptionsReceived d received ↔ EndsInside d received := by
  have htype : ∀ found, Search dhcpOptMsgType 0 received found ↔
      optFind received dhcpOptMsgType = some found := fun found ↦
    (optFindLoop_iff_search hsize (by decide) (by decide) (by decide)).symm
  have haddr : ∀ found, Search dhcpOptRequestedIp 0 received found ↔
      optFind received dhcpOptRequestedIp = some found := fun found ↦
    (optFindLoop_iff_search hsize (by decide) (by decide) (by decide)).symm
  unfold OptionsReceived EndsInside
  simp only [htype, haddr]

/-- The examined indices of one search. -/
theorem search_examined_iff (behind : List UInt8) (cmd : UInt8) :
    (∀ j ∈ optFindExamined (received ++ behind) cmd 155 0, j < received.length) ↔
      (optFind received cmd).isSome :=
  examined_received_iff behind (Nat.le_refl _)

/-- A request looks at received bytes only when its address and the two tests are inside. -/
theorem requestExamined_iff (behind : List UInt8) :
    (∀ j ∈ requestExamined d (received ++ behind), j < received.length) ↔
      ∃ found, optFind received dhcpOptRequestedIp = some found ∧
        ∀ o, found = some o → o + 4 < received.length ∧
          ((received.drop (o + 2)).take 3 = d.ip.take 3 → o + 5 < received.length) := by
  unfold requestExamined
  rw [List.forall_mem_append, search_examined_iff]
  cases hfind : optFind received dhcpOptRequestedIp with
  | none => simp
  | some found =>
      have hfull : optFind (received ++ behind) dhcpOptRequestedIp = some found :=
        optFindLoop_append behind hfind
      rw [hfull]
      cases found with
      | none => simp
      | some o =>
          simp only [Option.isSome_some, true_and, Option.some.injEq, exists_eq_left', forall_eq']
          rw [List.forall_mem_append]
          by_cases hroom : o + 4 < received.length
          · have hload : load (received ++ behind) (o + 2) 3 =
                some ((received.drop (o + 2)).take 3) := by
              rw [load_eq_some (by rw [List.length_append]; omega),
                List.drop_append_of_le_length (by omega),
                List.take_append_of_le_length (by rw [List.length_drop]; omega)]
            have hfirst : ∀ j ∈ [o + 2, o + 3, o + 4], j < received.length := by
              simp only [List.forall_mem_cons, hroom, List.not_mem_nil, false_imp_iff,
                implies_true, and_true]
              omega
            rw [hload]
            split
            · rename_i hnet
              have hnet' := Option.some.inj hnet
              simp only [hroom, hnet', List.mem_singleton, forall_eq, true_and, true_imp_iff]
              exact and_iff_right hfirst
            · rename_i hnet
              have hnet' : (received.drop (o + 2)).take 3 ≠ d.ip.take 3 := fun heq ↦
                hnet (congrArg some heq)
              exact iff_of_true ⟨hfirst, by simp⟩ ⟨hroom, fun heq ↦ absurd heq hnet'⟩
          · exact iff_of_false (fun h ↦ hroom (h.1 (o + 4) (by simp))) fun h ↦ hroom h.1

/-- The server looks at received bytes only when all its searches end inside. -/
theorem optionsExamined_iff (behind : List UInt8) :
    (∀ j ∈ optionsExamined d (received ++ behind), j < received.length) ↔
      EndsInside d received := by
  unfold optionsExamined EndsInside
  rw [List.forall_mem_append, search_examined_iff]
  cases hfind : optFind received dhcpOptMsgType with
  | none => simp
  | some found =>
      have hfull : optFind (received ++ behind) dhcpOptMsgType = some found :=
        optFindLoop_append behind hfind
      rw [hfull]
      cases found with
      | none => simp
      | some m =>
          simp only [Option.isSome_some, true_and, Option.some.injEq, exists_eq_left', forall_eq']
          rw [List.forall_mem_cons]
          refine and_congr_right fun hroom ↦ ?_
          rw [List.getElem?_append_left hroom]
          split
          · rename_i htype
            rw [requestExamined_iff d behind]
            exact ⟨fun h _ ↦ h, fun h ↦ h htype⟩
          · rename_i htype
            exact iff_of_true (by simp) fun h ↦ absurd h htype

end Received

/-! ## Datagrams -/

section Datagrams

variable {e : Datagram}

/-- The options that were received, as far as the message holds them. -/
theorem Datagram.received_length (e : Datagram) :
    e.received.length = min dhcpMsgSize e.packet.length - (optionsOffset + 4) := by
  rw [Datagram.received, List.length_drop, List.length_take]

/-- The options go on behind what has been received. -/
theorem Datagram.opt_eq_append (h : dhcpMinSize ≤ e.packet.length) :
    e.opt = e.received ++ e.stack.drop (min e.packet.length dhcpMsgSize) := by
  have hcopied : e.packet.take (min e.packet.length dhcpMsgSize) = e.packet.take dhcpMsgSize := by
    conv_rhs => rw [List.take_eq_take_min, Nat.min_comm]
  have hmin : dhcpMinSize = 243 := rfl
  have hcookie : optionsOffset + 4 ≤ (e.packet.take dhcpMsgSize).length := by
    have hsize : dhcpMsgSize = 548 := rfl
    have hoffset : optionsOffset = 236 := rfl
    rw [List.length_take]
    omega
  rw [Datagram.opt, Datagram.msg, hcopied, List.drop_append_of_le_length hcookie]
  rfl

/-- An index of a received option is one of the array and of the packet. -/
theorem Datagram.lt_received_iff (e : Datagram) (i : Nat) :
    i < e.received.length ↔
      optionsOffset + 4 + i < dhcpMsgSize ∧ optionsOffset + 4 + i < e.packet.length := by
  rw [e.received_length]
  omega

/-- A request is answered or ignored when the bytes that it looks at can be read. -/
theorem processRequest_isSome_iff (d : DhcpServer) (msg opt : List UInt8) (chaddr : Mac)
    (now : Nat) : (processRequest d msg opt chaddr now).isSome ↔
      ∃ found, optFind opt dhcpOptRequestedIp = some found ∧
        ∀ o, found = some o → o + 4 < opt.length ∧
          ((opt.drop (o + 2)).take 3 = d.ip.take 3 → o + 5 < opt.length) := by
  unfold processRequest
  cases optFind opt dhcpOptRequestedIp with
  | none => simp
  | some found =>
      cases found with
      | none => simp
      | some o =>
          simp only [bind, Option.bind_some, Option.some.injEq, exists_eq_left', forall_eq']
          by_cases hroom : o + 4 < opt.length
          swap
          · rw [load, if_neg (by omega), Option.bind_none]
            exact iff_of_false (by simp) fun h ↦ hroom h.1
          rw [load_eq_some (by omega), Option.bind_some]
          by_cases hnet : (opt.drop (o + 2)).take 3 = d.ip.take 3
          swap
          · rw [if_pos hnet]
            exact iff_of_true rfl ⟨hroom, fun heq ↦ absurd heq hnet⟩
          rw [if_neg (not_not.mpr hnet)]
          by_cases hlast : o + 5 < opt.length
          swap
          · rw [List.getElem?_eq_none (Nat.not_lt.mp hlast), Option.bind_none]
            exact iff_of_false (by simp) fun h ↦ hlast (h.2 hnet)
          rw [List.getElem?_eq_getElem hlast, Option.bind_some]
          refine iff_of_true ?_ ⟨hroom, fun _ ↦ hlast⟩
          split
          · rfl
          · rename_i hyi
            have hentry : (opt[o + 5] - dhcpsBaseIp.toUInt8).toNat < d.lease.length := by
              rw [d.size]
              omega
            rw [List.getElem?_eq_getElem hentry, Option.bind_some]
            split <;> rfl

/-- The indices are those that the model reads: a datagram is processed when all of them are in the
object that the message is part of. -/
theorem dhcpServerProcess_isSome_iff (d : DhcpServer) (h : dhcpMinSize ≤ e.packet.length) :
    (dhcpServerProcess d e.packet e.stack e.clock).isSome ↔
      ∀ i ∈ optionsExamined d e.opt, i < e.opt.length := by
  have hiff : (∀ i ∈ optionsExamined d (e.opt ++ []), i < e.opt.length) ↔ EndsInside d e.opt :=
    optionsExamined_iff d []
  rw [List.append_nil] at hiff
  rw [hiff, dhcpServerProcess_eq_bind d h, EndsInside]
  cases optFind e.opt dhcpOptMsgType with
  | none => simp
  | some found =>
      cases found with
      | none => simp
      | some m =>
          simp only [Option.bind_some, Option.elim_some, Option.some.injEq, exists_eq_left',
            forall_eq']
          by_cases hroom : m + 2 < e.opt.length
          swap
          · rw [List.getElem?_eq_none (Nat.not_lt.mp hroom), Option.bind_none]
            exact iff_of_false (by simp) fun h ↦ hroom h.1
          rw [List.getElem?_eq_getElem hroom, Option.bind_some, Option.some.injEq,
            and_iff_right hroom, ← processRequest_isSome_iff d e.msg e.opt e.chaddr (e.clock 0)]
          by_cases hrequest : e.opt[m + 2] = dhcpRequest
          · rw [hrequest, if_neg (by decide), if_pos rfl]
            exact ⟨fun hsome _ ↦ hsome, fun hsome ↦ hsome rfl⟩
          · rw [if_neg hrequest]
            refine iff_of_true ?_ fun heq ↦ absurd heq hrequest
            split <;> rfl

end Datagrams

/-- The options of a datagram are never read beyond what was received just when the received options
are whole fields up to where the searches end, and the fields that are found are long enough. -/
theorem never_over_reads_iff (d : DhcpServer) {e : Datagram} (h : dhcpMinSize ≤ e.packet.length) :
    NeverOverReads d e ↔ OptionsReceived d e.received := by
  have hsize : e.received.length ≤ optSize := by
    rw [e.received_length, optSize]
    omega
  have hopt : optSize ≤ e.opt.length := by
    have hmsg := e.msg_length
    rw [Datagram.opt, List.length_drop, optSize]
    omega
  have hterminates : ∀ cmd behind, behind ≠ [] → (optFind (e.opt ++ behind) cmd).isSome := by
    intro cmd behind hbehind
    have hmore := List.length_pos_of_ne_nil hbehind
    have hlong : 308 < (e.opt ++ behind).length := by
      rw [List.length_append]
      exact Nat.lt_of_le_of_lt hopt (Nat.lt_add_of_pos_right hmore)
    exact optFindLoop_terminates hlong (Nat.le_refl _)
  have hinside : (∀ i ∈ optionsExamined d e.opt,
      optionsOffset + 4 + i < dhcpMsgSize ∧ optionsOffset + 4 + i < e.packet.length) ↔
        OptionsReceived d e.received := by
    simp only [← e.lt_received_iff]
    rw [e.opt_eq_append h, optionsExamined_iff, optionsReceived_iff d hsize]
  exact ⟨fun hnever ↦ hinside.mp hnever.inside, fun hreceived ↦
    ⟨hterminates, hinside.mpr hreceived⟩⟩

/-- A request with a message type, a whole address and an end mark. -/
theorem never_over_reads_request : NeverOverReads
    (dhcpServerInit [192, 168, 4, 1] [255, 255, 255, 0])
    (clientMessage [2, 0, 0, 0, 0, 1] dhcpRequest 0) := by
  have hsize : dhcpMinSize ≤ (clientMessage [2, 0, 0, 0, 0, 1] dhcpRequest 0).packet.length := by
    decide +kernel
  have hreceived : (clientMessage [2, 0, 0, 0, 0, 1] dhcpRequest 0).received =
      [53, 1, 3, 50, 4, 192, 168, 4, 16, 255] := by
    decide +kernel
  refine (never_over_reads_iff _ hsize).mpr ?_
  rw [hreceived]
  refine ⟨some 0, .found [] _ (by simp) rfl, ?_⟩
  intro m hm
  obtain rfl := Option.some.inj hm
  refine ⟨by decide, fun _ ↦ ⟨some 3, .found [⟨53, [3], by decide⟩] [4, 192, 168, 4, 16, 255]
    (by simp [Passed, dhcpOptEnd, dhcpOptRequestedIp]) rfl, ?_⟩⟩
  intro o ho
  obtain rfl := Option.some.inj ho
  exact ⟨by decide, fun _ ↦ by decide⟩

/-- A datagram of `DHCP_MIN_SIZE` bytes: its options are those of a request without an end mark. -/
def unendedRequest : Datagram :=
  { clientMessage [2, 0, 0, 0, 0, 1] dhcpRequest 0 with
    packet := List.replicate (optionsOffset + 4) 0 ++ [dhcpOptMsgType, 1, dhcpRequest] }

/-- The search for the address goes on behind the received bytes. -/
theorem over_reads_unended :
    ¬ NeverOverReads (dhcpServerInit [192, 168, 4, 1] [255, 255, 255, 0]) unendedRequest := by
  intro hnever
  have hexamined : 3 ∈ optionsExamined (dhcpServerInit [192, 168, 4, 1] [255, 255, 255, 0])
      unendedRequest.opt := by
    decide +kernel
  exact absurd (hnever.inside 3 hexamined).2 (by decide +kernel)

end DirtieNode.AccessPoint
