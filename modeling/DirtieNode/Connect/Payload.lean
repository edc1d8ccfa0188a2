import DirtieNode.AccessPoint.Credentials
import DirtieNode.Connect.Connect
import DirtieNode.Library.Json

/-!
# What reaches the broker

`publish` copies a message into 128 bytes and takes the length of the copy, so `handed_over_iff`
bounds the messages that arrive as they are. The messages of `provision` and `breadcrumb` are cut
by the sizes in their calls of `snprintf`: `payloads_incomplete` says that the closing brace is
always missing.
-/

namespace DirtieNode.Connect

open CString State

/-! ## The copy of a message -/

/-- `mqtt_publish` gets the bytes of the message, and their number is found inside the copy. -/
def HandedOver (env : Env) (topic message : List UInt8) (ram : Ram) : Prop :=
  (publish env topic message ram).2.sent = ⟨topic, message, some message⟩ :: ram.sent

/-- `publish` records its arguments and the string in its copy. -/
theorem publish_sent (env : Env) (topic message : List UInt8) (ram : Ram) :
    (publish env topic message ram).2.sent =
      ⟨topic, message, get ((message ++ List.replicate 128 0).take 128)⟩ :: ram.sent := by
  unfold publish
  dsimp only
  split <;> rfl

/-- A copy of fewer than 128 bytes has its terminator. -/
theorem copy_of_lt {message : List UInt8} (h : 0 ∉ message) (hlen : message.length < 128) :
    get ((message ++ List.replicate 128 0).take 128) = some message := by
  obtain ⟨room, hroom⟩ := Nat.exists_eq_add_of_lt hlen
  have hcopy : (message ++ List.replicate 128 0).take 128 =
      message ++ List.replicate (room + 1) 0 := by
    rw [List.take_append, List.take_of_length_le (Nat.le_of_lt hlen), List.take_replicate]
    congr 2
    omega
  rw [hcopy]
  exact get_holds (holds_replicate _ h (by omega))

/-- A longer message fills the copy, which then has no terminator. -/
theorem copy_of_le {message : List UInt8} (h : 0 ∉ message) (hlen : 128 ≤ message.length) :
    get ((message ++ List.replicate 128 0).take 128) = none := by
  rw [List.take_append_of_le_length hlen, get_eq_none_iff]
  exact fun hmem ↦ h (List.mem_of_mem_take hmem)

/-- For every message, whatever the topic and the outcome of `mqtt_publish`. -/
theorem handed_over_iff (env : Env) (topic : List UInt8) (message : CStr) (ram : Ram) :
    HandedOver env topic message.bytes ram ↔ message.bytes.length < 128 := by
  rw [HandedOver, publish_sent, List.cons.injEq, Publication.mk.injEq]
  constructor
  · intro h
    by_contra hlong
    rw [copy_of_le message.nul_free (Nat.le_of_not_lt hlong)] at h
    simp at h
  · intro h
    exact ⟨⟨rfl, rfl, copy_of_lt message.nul_free h⟩, rfl⟩

/-! ## The templates -/

/-- A byte has two digits. -/
theorem hexByte_length (b : UInt8) : (hexByte b).length = 2 :=
  forall_byte (p := fun b ↦ (hexByte b).length = 2) (by decide +kernel) b

/-- A byte's digits are plain characters of JSON. -/
theorem hexByte_plain (b : UInt8) : ∀ c ∈ hexByte b, JsonText.Plain c :=
  forall_byte (p := fun b ↦ ∀ c ∈ hexByte b, JsonText.Plain c) (by decide +kernel) b

/-- A number's digits are plain characters of JSON. -/
theorem decimal_plain (n : Nat) : ∀ c ∈ decimal n, JsonText.Plain c := by
  intro c hc
  obtain ⟨hlow, hhigh⟩ := digit_of_mem_decimal hc
  refine ⟨?_, ?_, ?_⟩
  · rintro rfl
    exact absurd hlow (by decide)
  · rintro rfl
    exact absurd hhigh (by decide)
  · rw [UInt8.lt_iff_toNat_lt]
    exact Nat.not_lt.mpr (Nat.le_trans (by decide) hlow)

/-- The full expansion of the template of `provision`. -/
def provisionText (env : Env) (token : List UInt8) : List UInt8 :=
  templateHead env token ++ lit "\x7d"

/-- The members of the message of `provision`. -/
def provisionFields (env : Env) (token : List UInt8) : List (List UInt8 × List UInt8) :=
  [(lit "macAddr", macAddr env.mac), (lit "contract", token)]

/-- The members of the message of `breadcrumb`. -/
def breadcrumbFields (env : Env) (token : List UInt8) (capacitance temperature : UInt16) :
    List (List UInt8 × List UInt8) :=
  provisionFields env token ++ [(lit "capacitance", decimal capacitance.toNat),
    (lit "temperature", decimal temperature.toNat)]

/-- The text of an object with these members, as they are. -/
def plainObject (fields : List (List UInt8 × List UInt8)) : List UInt8 :=
  JsonText.objectText (fields.map fun field ↦ JsonText.memberText field.1 field.2)

section Templates

variable {env : Env} {token : List UInt8}

/-- The bytes of an address have colons between them. -/
theorem macAddr_cons (first second : UInt8) (mac : List UInt8) :
    macAddr (first :: second :: mac) = hexByte first ++ lit ":" ++ macAddr (second :: mac) := by
  simp [macAddr, List.intercalate]

/-- An address has plain characters of JSON only. -/
theorem macAddr_plain (mac : List UInt8) : ∀ c ∈ macAddr mac, JsonText.Plain c := by
  intro c hc
  induction mac with
  | nil => simp [macAddr] at hc
  | cons first mac ih =>
      cases mac with
      | nil => exact hexByte_plain first c (by simpa [macAddr, List.intercalate] using hc)
      | cons second mac =>
          rw [macAddr_cons, List.mem_append, List.mem_append] at hc
          rcases hc with (hc | hc) | hc
          · exact hexByte_plain first c hc
          · obtain rfl := List.mem_singleton.mp hc
            decide
          · exact ih hc

/-- An address takes three characters for each byte, and no colon behind the last one. -/
theorem macAddr_length (mac : List UInt8) : (macAddr mac).length = 3 * mac.length - 1 := by
  induction mac with
  | nil => rfl
  | cons first mac ih =>
      cases mac with
      | nil => simp [macAddr, List.intercalate, hexByte_length]
      | cons second mac =>
          have hcolon : (lit ":").length = 1 := rfl
          rw [macAddr_cons, List.length_append, List.length_append, hexByte_length, hcolon, ih]
          simp only [List.length_cons]
          omega

/-- The start of a template has 44 characters around the token. -/
theorem templateHead_length (hmac : env.mac.length = 6) :
    (templateHead env token).length = 44 + token.length := by
  have hstart : (lit "\x7b\"macAddr\":\"").length = 12 := rfl
  have hmiddle : (lit "\",\"contract\":\"").length = 14 := rfl
  have hend : (lit "\"").length = 1 := rfl
  simp only [templateHead, List.length_append, macAddr_length, hmac, hstart, hmiddle, hend]
  omega

/-- The start of the templates has two members. -/
theorem templateHead_eq (env : Env) (token : List UInt8) :
    templateHead env token = 123 :: (JsonText.memberText (lit "macAddr") (macAddr env.mac) ++
      JsonText.comma :: JsonText.memberText (lit "contract") token) := by
  have hstart : lit "\x7b\"macAddr\":\"" =
      123 :: (JsonText.inQuotes (lit "macAddr") ++ [JsonText.colon, JsonText.quote]) := by decide
  have hmiddle : lit "\",\"contract\":\"" = JsonText.quote :: JsonText.comma ::
      (JsonText.inQuotes (lit "contract") ++ [JsonText.colon, JsonText.quote]) := by decide
  have hend : lit "\"" = [JsonText.quote] := by decide
  simp [templateHead, JsonText.memberText, hstart, hmiddle, hend, JsonText.inQuotes]

/-- The template of `provision` is an object with two members. -/
theorem provisionText_eq (env : Env) (token : List UInt8) :
    provisionText env token = plainObject (provisionFields env token) := by
  have hend : lit "\x7d" = [125] := by decide
  simp [provisionText, templateHead_eq, plainObject, provisionFields, JsonText.objectText, hend]

/-- The template of `breadcrumb` is an object with four members. -/
theorem breadcrumbText_eq (env : Env) (token : List UInt8) (capacitance temperature : UInt16) :
    breadcrumbText env token capacitance temperature =
      plainObject (breadcrumbFields env token capacitance temperature) := by
  have hcapacitance : lit ",\"capacitance\":\"" = JsonText.comma ::
      (JsonText.inQuotes (lit "capacitance") ++ [JsonText.colon, JsonText.quote]) := by decide
  have htemperature : lit "\",\"temperature\":\"" = JsonText.quote :: JsonText.comma ::
      (JsonText.inQuotes (lit "temperature") ++ [JsonText.colon, JsonText.quote]) := by decide
  have hend : lit "\"\x7d" = [JsonText.quote, 125] := by decide
  simp [breadcrumbText, templateHead_eq, plainObject, breadcrumbFields, provisionFields,
    JsonText.objectText, JsonText.memberText, hcapacitance, htemperature, hend, JsonText.inQuotes]

/-- An object of plain strings is read back, and without its last brace it is not read at all. -/
theorem object_plainObject {fields : List (List UInt8 × List UInt8)} (hne : fields ≠ [])
    (h : ∀ field ∈ fields, (∀ c ∈ field.1, JsonText.Plain c) ∧ ∀ c ∈ field.2, JsonText.Plain c) :
    JsonText.object (plainObject fields) = some fields ∧
      JsonText.object (plainObject fields).dropLast = none := by
  let members := fields.map fun field ↦ (field.1, field.2, field.2)
  have hmembers : ∀ m ∈ members,
      (∀ c ∈ m.1, JsonText.Plain c) ∧ JsonText.Encodes m.2.1 m.2.2 := by
    intro m hm
    obtain ⟨field, hfield, rfl⟩ := List.mem_map.mp hm
    exact ⟨(h field hfield).1, JsonText.encodes_plain (h field hfield).2⟩
  have htext : plainObject fields = JsonText.objectText
      (members.map fun m ↦ JsonText.memberText m.1 m.2.2) := by
    simp [plainObject, members, Function.comp_def]
  rw [htext]
  refine ⟨?_, JsonText.object_unclosed (by simpa [members] using hne) hmembers⟩
  rw [JsonText.object_objectText hmembers]
  simp [members, Function.comp_def]

/-- For a plain token, all the members are plain. -/
theorem fields_plain (env : Env) (htoken : ∀ c ∈ token, JsonText.Plain c)
    (capacitance temperature : UInt16) :
    ∀ field ∈ breadcrumbFields env token capacitance temperature,
      (∀ c ∈ field.1, JsonText.Plain c) ∧ ∀ c ∈ field.2, JsonText.Plain c := by
  simp only [breadcrumbFields, provisionFields, List.cons_append, List.nil_append,
    List.forall_mem_cons]
  exact ⟨⟨by decide, macAddr_plain env.mac⟩, ⟨by decide, htoken⟩, ⟨by decide, decimal_plain _⟩,
    ⟨by decide, decimal_plain _⟩, by simp⟩

/-- The messages would be objects with the right members if they were complete. -/
theorem object_provisionText (env : Env) (htoken : ∀ c ∈ token, JsonText.Plain c) :
    JsonText.object (provisionText env token) = some (provisionFields env token) ∧
      JsonText.object (provisionText env token).dropLast = none := by
  rw [provisionText_eq]
  refine object_plainObject (by simp [provisionFields]) fun field hfield ↦ ?_
  exact fields_plain env htoken 0 0 field (List.mem_append_left _ hfield)

/-- The text of a measurement is read as its members, and not without the closing brace. -/
theorem object_breadcrumbText (env : Env) (htoken : ∀ c ∈ token, JsonText.Plain c)
    (capacitance temperature : UInt16) :
    JsonText.object (breadcrumbText env token capacitance temperature) =
        some (breadcrumbFields env token capacitance temperature) ∧
      JsonText.object (breadcrumbText env token capacitance temperature).dropLast = none := by
  rw [breadcrumbText_eq]
  exact object_plainObject (by simp [breadcrumbFields, provisionFields])
    (fields_plain env htoken capacitance temperature)

end Templates

/-! ## The payloads -/

/-- The message of the last call of `publish`. -/
def handed (ram : Ram) : Option (List UInt8) :=
  ram.sent.head?.map Publication.message

/-- A handler has published this text, and for a token without quotes, backslashes and control
characters the text is an object with exactly these members. -/
structure Complete (after : Ram) (text token : List UInt8)
    (fields : List (List UInt8 × List UInt8)) : Prop where
  whole : handed after = some text
  readable : (∀ c ∈ token, JsonText.Plain c) → (handed after).bind JsonText.object = some fields

/-- The message of `provision` is complete. -/
def ProvisionComplete (env : Env) (ram : Ram) : Prop :=
  let token := ram.ctx.text.str prvToken
  Complete (provision env ram).2 (provisionText env token) token (provisionFields env token)

/-- The message of `breadcrumb` is complete. -/
def BreadcrumbComplete (env : Env) (ram : Ram) : Prop :=
  let token := ram.ctx.text.str prvToken
  Complete (breadcrumb env ram).2
    (breadcrumbText env token ram.ctx.capacitance ram.ctx.temperature) token
    (breadcrumbFields env token ram.ctx.capacitance ram.ctx.temperature)

section Payloads

variable {env : Env} {ram : Ram}

/-- The last message is the one that `publish` was called with. -/
theorem handed_publish (env : Env) (topic message : List UInt8) (ram : Ram) :
    handed (publish env topic message ram).2 = some message := by
  rw [handed, publish_sent]
  rfl

/-- The message of `provision` is the expansion without its last byte: the size leaves no room for
the terminator behind it. -/
theorem handed_provision (hpayload : env.payload = true) (hmac : env.mac.length = 6) :
    handed (provision env ram).2 =
      some (provisionText env (ram.ctx.text.str prvToken)).dropLast := by
  have hbrace : (lit "\x7d").length = 1 := rfl
  have hlen : (provisionText env (ram.ctx.text.str prvToken)).length - 1 =
      45 + (ram.ctx.text.str prvToken).length - 1 := by
    rw [provisionText, List.length_append, templateHead_length hmac, hbrace]
    omega
  unfold provision
  simp only [hpayload, Bool.not_true, Bool.false_eq_true, if_false, handed_publish]
  rw [← hlen, List.dropLast_eq_take, provisionText]

/-- So is that of `breadcrumb`, whose measured length does not count the terminator. -/
theorem handed_breadcrumb (hpayload : env.payload = true) :
    handed (breadcrumb env ram).2 =
      some (breadcrumbText env (ram.ctx.text.str prvToken) ram.ctx.capacitance
        ram.ctx.temperature).dropLast := by
  unfold breadcrumb
  simp only [hpayload, Bool.not_true, Bool.false_eq_true, if_false, handed_publish]
  rw [breadcrumbPayload, List.dropLast_eq_take]

/-- A nonempty text is not what is left of it without its last byte. -/
theorem not_complete_of_dropLast {after : Ram} {text token : List UInt8}
    {fields : List (List UInt8 × List UInt8)} (hne : text ≠ [])
    (h : handed after = some text.dropLast) : ¬ Complete after text token fields := by
  intro hcomplete
  have hsame := Option.some.inj (h.symm.trans hcomplete.whole)
  have hlen := congrArg List.length hsame
  have hpos := List.length_pos_of_ne_nil hne
  rw [List.length_dropLast] at hlen
  omega

/-- For every MAC address, every token and all readings: neither message is complete, and for a
plain token neither can be read as an object. -/
theorem payloads_incomplete (hpayload : env.payload = true) (hmac : env.mac.length = 6) :
    ¬ ProvisionComplete env ram ∧ ¬ BreadcrumbComplete env ram ∧
      ((∀ c ∈ ram.ctx.text.str prvToken, JsonText.Plain c) →
        (handed (provision env ram).2).bind JsonText.object = none ∧
          (handed (breadcrumb env ram).2).bind JsonText.object = none) := by
  have hprovision : handed (provision env ram).2 = _ := handed_provision hpayload hmac
  have hbreadcrumb : handed (breadcrumb env ram).2 = _ := handed_breadcrumb hpayload
  refine ⟨not_complete_of_dropLast ?_ hprovision, not_complete_of_dropLast ?_ hbreadcrumb,
    fun htoken ↦ ?_⟩
  · simp [provisionText, templateHead_eq]
  · simp [breadcrumbText, templateHead_eq]
  · rw [hprovision, hbreadcrumb, Option.bind_some, Option.bind_some]
    exact ⟨(object_provisionText env htoken).2, (object_breadcrumbText env htoken _ _).2⟩

/-- The message of `breadcrumb` grows with the token and the digits of the readings. -/
theorem breadcrumbPayload_length {token : List UInt8} (hmac : env.mac.length = 6)
    (capacitance temperature : UInt16) :
    (breadcrumbPayload env token capacitance temperature).length =
      78 + token.length + (decimal capacitance.toNat).length +
        (decimal temperature.toNat).length := by
  have hcapacitance : (lit ",\"capacitance\":\"").length = 16 := rfl
  have htemperature : (lit "\",\"temperature\":\"").length = 17 := rfl
  have hend : (lit "\"\x7d").length = 2 := rfl
  simp only [breadcrumbPayload, List.length_take, breadcrumbText, List.length_append,
    templateHead_length hmac, hcapacitance, htemperature, hend]
  omega

end Payloads

/-- A breadcrumb with a token of 63 bytes fills the copy. -/
theorem breadcrumb_over_copy : ¬ ∀ (env : Env) (topic : List UInt8) (message : CStr) (ram : Ram),
    HandedOver env topic message.bytes ram := by
  intro hclaim
  let token : List UInt8 := List.replicate 63 97
  let message : CStr := .ofBytes (breadcrumbPayload {} token 10000 1000) (by decide +kernel)
    (by decide +kernel)
  have hlen : 128 ≤ message.bytes.length := by
    rw [CStr.ofBytes_bytes, breadcrumbPayload_length rfl, List.length_replicate]
    omega
  have hover := hclaim {} topicBreadcrumb message { ctx := AccessPoint.bootCtx }
  rw [HandedOver, publish_sent, copy_of_le message.nul_free hlen] at hover
  simp at hover

/-- A context with a token. -/
def tokenCtx : AppCtx where
  text := ⟨List.replicate 128 0 ++ lit "abc" ++ List.replicate 125 0, by decide +kernel,
    by decide +kernel⟩

/-- Both messages for the token `abc` lack the closing brace. -/
theorem payloads_incomplete_abc :
    ¬ ProvisionComplete {} { ctx := tokenCtx } ∧ ¬ BreadcrumbComplete {} { ctx := tokenCtx } ∧
      (handed (provision {} { ctx := tokenCtx }).2).bind JsonText.object = none := by
  obtain ⟨hprovision, hbreadcrumb, hunreadable⟩ : ¬ ProvisionComplete {} { ctx := tokenCtx } ∧
      ¬ BreadcrumbComplete {} { ctx := tokenCtx } ∧ _ := payloads_incomplete rfl rfl
  exact ⟨hprovision, hbreadcrumb, (hunreadable (by decide)).1⟩

/-- The token of the example, with the address of the default environment. -/
theorem payload_without_brace : ¬ ∀ (env : Env) (ram : Ram), env.payload = true →
    env.mac.length = 6 → (ram.ctx.text.str prvToken).length ≤ 63 →
      ProvisionComplete env ram ∧ BreadcrumbComplete env ram := by
  intro hclaim
  obtain ⟨hcomplete, _⟩ := hclaim {} { ctx := tokenCtx } rfl rfl (by decide)
  exact absurd hcomplete.whole (by decide +kernel)

end DirtieNode.Connect
