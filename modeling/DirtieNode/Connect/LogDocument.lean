import DirtieNode.Connect.LogBuffer
import DirtieNode.Connect.Payload
import DirtieNode.Library.JsonValue

/-!
# The message of `logdump`

Unlike the messages of `provision` and `breadcrumb`, that of `logdump` is complete: an object of the
MAC address, the contract and the array of the logs.
-/

namespace DirtieNode.Connect

open CString Logger State Util

/-- The message of `logdump` when the clock says `now` and the buffers hold the logs. -/
def logdumpText (env : Env) (token : List UInt8) (heap : Heap) (now : Nat) (ids : List BufId) :
    List UInt8 :=
  templateHead env token ++ lit ",\"logdump\":" ++
    (lit "[" ++ JsonText.separated (ids.map (logElement heap now env.hwnow))) ++ lit "]\x7d"

/-- The members of the message of `logdump`. -/
def logdumpFields (env : Env) (contract : List UInt8) (elements : List (List UInt8)) :
    List (List UInt8 × JsonText.Value) :=
  [(lit "macAddr", .string (macAddr env.mac)), (lit "contract", .string contract),
    (lit "logdump", .array elements)]

section Document

variable {env : Env} {token contract : List UInt8} {heap : Heap} {now : Nat} {ids : List BufId}

/-- The message is an object of three members. -/
theorem logdumpText_eq : logdumpText env token heap now ids =
    JsonText.objectText [JsonText.memberText (lit "macAddr") (macAddr env.mac),
      JsonText.memberText (lit "contract") token,
      JsonText.inQuotes (lit "logdump") ++ JsonText.colon ::
        JsonText.arrayText (ids.map (logElement heap now env.hwnow))] := by
  have hname : lit ",\"logdump\":" =
      JsonText.comma :: (JsonText.inQuotes (lit "logdump") ++ [JsonText.colon]) := by decide
  have hopen : lit "[" = [91] := by decide
  have hend : lit "]\x7d" = [93, 125] := by decide
  simp [logdumpText, templateHead_eq, hname, hopen, hend, JsonText.objectText, JsonText.arrayText]

/-- Whatever the logs are, the message is read as its members. -/
theorem document_logdumpText (hcontract : JsonText.Encodes contract token) :
    JsonText.document (logdumpText env token heap now ids) =
      some (logdumpFields env contract
        (ids.map fun id ↦ b64Encode (rebasedLog heap now env.hwnow id))) := by
  let logs := ids.map fun id ↦
    (b64Encode (rebasedLog heap now env.hwnow id), b64Encode (rebasedLog heap now env.hwnow id))
  let members : List (List UInt8 × JsonText.Value × List UInt8) :=
    [(lit "macAddr", .string (macAddr env.mac), JsonText.inQuotes (macAddr env.mac)),
      (lit "contract", .string contract, JsonText.inQuotes token),
      (lit "logdump", .array (logs.map Prod.fst),
        JsonText.arrayText (logs.map fun log ↦ JsonText.inQuotes log.2))]
  have hlogs : ∀ log ∈ logs, JsonText.Encodes log.1 log.2 := by
    intro log hlog
    obtain ⟨id, _, rfl⟩ := List.mem_map.mp hlog
    exact JsonText.encodes_plain (b64Encode_plain _)
  have hmembers : ∀ m ∈ members, (∀ b ∈ m.1, JsonText.Plain b) ∧ JsonText.Written m.2.1 m.2.2 := by
    simp only [members, List.forall_mem_cons]
    exact ⟨⟨by decide, .string (JsonText.encodes_plain (macAddr_plain env.mac))⟩,
      ⟨by decide, .string hcontract⟩, ⟨by decide, .array hlogs⟩, by simp⟩
  have hread := JsonText.document_objectText hmembers
  have helements : logs.map Prod.fst =
      ids.map fun id ↦ b64Encode (rebasedLog heap now env.hwnow id) := by
    simp [logs, Function.comp_def]
  have htexts : logs.map (fun log ↦ JsonText.inQuotes log.2) =
      ids.map (logElement heap now env.hwnow) := by
    simp [logs, Function.comp_def, logElement]
  simp only [members, helements, htexts] at hread
  rw [logdumpText_eq]
  exact hread

/-- Without an error, the message is published. -/
theorem logdump_message {ram : Ram} (hslots : ram.logs.logdump = slotsOf ids)
    (hnodup : ids.Nodup) :
    (logdump env ram).2.sent = ram.sent ∨
      ∃ now publication, (getCurrentEpoch env.nowMs ram.ctx.ntpState).2 = some now ∧
        (logdump env ram).2.sent = publication :: ram.sent ∧ publication.message =
          logdumpText env (ram.ctx.text.str prvToken) ram.logs.heap now ids := by
  unfold logdump
  split
  · exact .inl rfl
  · rename_i now hepoch
    split
    · exact .inl rfl
    · have hok := (logArray_cases env now env.hwnow 0 ram.logs.logdump ram.logs.heap (lit "[")).1
      rw [hslots, takeWhile_slotsOf, List.length_map] at hok
      have htext : (∀ j < ids.length, env.b64 j = true) →
          (logArray env now env.hwnow 0 (slotsOf ids) ram.logs.heap (lit "[")).2.2 =
            lit "[" ++ JsonText.separated (ids.map (logElement ram.logs.heap now env.hwnow)) :=
        logArray_text now env.hwnow (maxLogEntries - ids.length) ram.logs.heap (lit "[") hnodup
      rw [hslots]
      generalize logArray env now env.hwnow 0 (slotsOf ids) ram.logs.heap (lit "[") = result
        at hok htext ⊢
      split
      · rename_i heap text
        split
        · exact .inl rfl
        · have hencoded : ∀ j < ids.length, env.b64 j = true := by
            simpa using hok
          obtain rfl : text = _ := htext hencoded
          exact .inr ⟨now, _, by rw [hepoch], publish_sent .., rfl⟩
      · exact .inl rfl

end Document

end DirtieNode.Connect
