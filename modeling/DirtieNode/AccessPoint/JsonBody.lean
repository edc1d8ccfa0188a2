import DirtieNode.AccessPoint.Credentials
import DirtieNode.Library.Json

/-!
# Credentials as JSON

`parse_wifi_credentials` on an object that has the three credentials as members, in any order and
with any spelling of their characters. The parser finds each member where it is, and takes the bytes
up to the next quote: `json_round_trip_iff` says that these are the credentials exactly when no
character is escaped.
-/

namespace DirtieNode.AccessPoint

open CString State

/-- The names of the members. -/
def credentialNames : List (List UInt8) :=
  [lit "ssid", lit "password", lit "token"]

/-- A string, and the text that stands for it in an object. -/
structure Credential where
  value : List UInt8
  text : List UInt8
  encodes : JsonText.Encodes value text
  short : text.length ≤ 63

/-- The object with these members. -/
def credentialBody (members : List (List UInt8 × Credential)) : List UInt8 :=
  JsonText.objectText (members.map fun m ↦ JsonText.memberText m.1 m.2.text)

/-- The parser accepts the body, and the three arrays hold the strings. -/
def RoundTrip (body : List UInt8) (ctx : AppCtx) (ssid password token : Credential) : Prop :=
  ∃ ctx', parseWifiCredentials (body ++ [0]) ctx = some (true, ctx') ∧
    array ctx' wifiSsid = some ssid.value ∧ array ctx' wifiPass = some password.value ∧
    array ctx' prvToken = some token.value

/-! ## The body -/

section Body

variable {members : List (List UInt8 × Credential)} {name : List UInt8} {credential : Credential}

/-- The three names are plain text. -/
theorem credentialNames_plain : ∀ name ∈ credentialNames, name ≠ [] ∧
    (∀ b ∈ name, JsonText.Plain b) ∧ JsonText.colon ∉ name ∧
      JsonText.comma ∉ JsonText.memberQuery name := by decide

/-- The body is an object of the strings. -/
theorem object_credentialBody (hnames : ∀ m ∈ members, m.1 ∈ credentialNames) :
    JsonText.object (credentialBody members) = some (members.map fun m ↦ (m.1, m.2.value)) := by
  have hmembers : ∀ m ∈ members.map fun m ↦ (m.1, m.2.value, m.2.text),
      (∀ b ∈ m.1, JsonText.Plain b) ∧ JsonText.Encodes m.2.1 m.2.2 := by
    intro m hm
    obtain ⟨member, hmember, rfl⟩ := List.mem_map.mp hm
    exact ⟨(credentialNames_plain _ (hnames member hmember)).2.1, member.2.encodes⟩
  have hread := JsonText.object_objectText hmembers
  simp only [List.map_map, Function.comp_def] at hread
  exact hread

/-- The body of plain members has no terminator. -/
theorem credentialBody_nul_free (hnames : ∀ m ∈ members, m.1 ∈ credentialNames) :
    0 ∉ credentialBody members := by
  have hplain : ¬ JsonText.Plain 0 := by decide
  have hquoted : ∀ {text : List UInt8}, 0 ∉ text → 0 ∉ JsonText.inQuotes text := by
    intro text htext
    simp only [JsonText.inQuotes, List.mem_cons, List.mem_append, List.not_mem_nil, or_false,
      not_or]
    exact ⟨by decide, htext, by decide⟩
  have hmember : ∀ m ∈ members, 0 ∉ JsonText.memberText m.1 m.2.text := by
    intro m hm
    have hname : 0 ∉ m.1 := fun hzero ↦
      hplain ((credentialNames_plain _ (hnames m hm)).2.1 0 hzero)
    simp only [JsonText.memberText, List.mem_append, List.mem_cons, not_or]
    exact ⟨hquoted hname, by decide, hquoted m.2.encodes.nul_free⟩
  simp only [credentialBody, JsonText.objectText, List.mem_cons, List.mem_append,
    List.not_mem_nil, or_false, not_or]
  refine ⟨by decide, fun hzero ↦ ?_, by decide⟩
  rcases JsonText.mem_separated hzero with hcomma | ⟨text, htext, hmem⟩
  · exact absurd hcomma (by decide)
  · obtain ⟨m, hm, rfl⟩ := List.mem_map.mp htext
    exact hmember m hm hmem

/-- The first occurrence of a query in a member of that name. -/
theorem splitFirst_own (name text : List UInt8) :
    splitFirst (JsonText.memberQuery name) (JsonText.memberText name text) =
      some ([], text ++ [JsonText.quote]) := by
  rw [JsonText.memberText_eq]
  exact splitFirst_self _ _ (by simp [JsonText.memberQuery])

/-- The first occurrence of a query in the members is in front of the value. -/
theorem splitFirst_members (hnames : ∀ m ∈ members, m.1 ∈ credentialNames)
    (hnodup : (members.map Prod.fst).Nodup) (hmem : (name, credential) ∈ members)
    (rest : List UInt8) :
    ∃ before after, splitFirst (JsonText.memberQuery name)
        (JsonText.separated (members.map fun m ↦ JsonText.memberText m.1 m.2.text) ++ rest) =
      some (before, credential.text ++ JsonText.quote :: after) := by
  obtain ⟨hne, hplain, hcolon, hcomma⟩ := credentialNames_plain _ (hnames _ hmem)
  induction members with
  | nil => exact absurd hmem List.not_mem_nil
  | cons m members ih =>
      have hrest : ∀ m ∈ members, m.1 ∈ credentialNames := fun m hm ↦
        hnames m (List.mem_cons_of_mem _ hm)
      obtain ⟨hfresh, hnodup⟩ := List.nodup_cons.mp hnodup
      rcases List.mem_cons.mp hmem with rfl | hlater
      · have hfound := splitFirst_append_of_some (splitFirst_own name credential.text)
          (((members.map fun m ↦ JsonText.memberText m.1 m.2.text).map
            (JsonText.comma :: ·)).flatten ++ rest)
        rw [List.map_cons, JsonText.separated_eq_flatten, List.append_assoc, hfound,
          List.append_assoc]
        exact ⟨[], _, rfl⟩
      · have hother : name ≠ m.1 := fun heq ↦
          hfresh (heq ▸ List.mem_map_of_mem (f := Prod.fst) hlater)
        have hquote : JsonText.quote ∉ m.1 := fun hmem ↦
          ((credentialNames_plain _ (hnames m List.mem_cons_self)).2.1 _ hmem).1 rfl
        have hnone := splitFirst_eq_none_iff.mpr
          (JsonText.not_infix_memberText m.2.encodes hne hplain hcolon hquote hother)
        obtain ⟨before, after, hfound⟩ := ih hrest hnodup hlater
        cases members with
        | nil => exact absurd hlater List.not_mem_nil
        | cons next members =>
            refine ⟨JsonText.memberText m.1 m.2.text ++ JsonText.comma :: before, after, ?_⟩
            rw [List.map_cons] at hfound
            rw [List.map_cons, List.map_cons, JsonText.separated_cons, List.append_assoc,
              List.cons_append, splitFirst_separator hcomma (by simp [JsonText.memberQuery]), hnone,
              hfound]
            rfl

/-- The parser takes the text of a member up to the next quote. -/
theorem quoted_credentialBody (hnames : ∀ m ∈ members, m.1 ∈ credentialNames)
    (hnodup : (members.map Prod.fst).Nodup) (hmem : (name, credential) ∈ members) :
    quoted (JsonText.memberQuery name) (credentialBody members) =
      some (credential.text.takeWhile (· != quote)) := by
  obtain ⟨before, after, hfound⟩ := splitFirst_members hnames hnodup hmem [125]
  have hcut : splitFirst (JsonText.memberQuery name) (credentialBody members) =
      some (123 :: before, credential.text ++ JsonText.quote :: after) := by
    have hbrace : ¬ JsonText.memberQuery name <+: credentialBody members := by
      simp [JsonText.memberQuery, JsonText.inQuotes, credentialBody, JsonText.objectText,
        JsonText.quote]
    rw [credentialBody, JsonText.objectText] at hbrace ⊢
    rw [splitFirst, if_neg hbrace, hfound]
    rfl
  have hquote : quote ∈ credential.text ++ JsonText.quote :: after :=
    List.mem_append_right _ List.mem_cons_self
  rw [quoted_of_cut hcut, if_pos hquote, Option.some.injEq]
  rw [List.takeWhile_append]
  split
  · rename_i hlen
    rw [List.takeWhile_cons_of_neg (by decide), List.append_nil]
    exact ((List.takeWhile_prefix _).eq_of_length hlen).symm
  · rfl

end Body

/-! ## The round trip -/

section Parse

variable {ssid password token : Credential} {members : List (List UInt8 × Credential)}

/-- The parser accepts the body, and stores the texts up to their first quote. -/
theorem parse_credentialBody (ctx : AppCtx)
    (horder : members.Perm [(lit "ssid", ssid), (lit "password", password), (lit "token", token)]) :
    ∃ ctx', parseWifiCredentials (credentialBody members ++ [0]) ctx = some (true, ctx') ∧
      array ctx' wifiSsid = some (ssid.text.takeWhile (· != quote)) ∧
      array ctx' wifiPass = some (password.text.takeWhile (· != quote)) ∧
      array ctx' prvToken = some (token.text.takeWhile (· != quote)) := by
  have hperm : (members.map Prod.fst).Perm credentialNames := horder.map Prod.fst
  have hnames : ∀ m ∈ members, m.1 ∈ credentialNames := fun m hm ↦
    hperm.subset (List.mem_map_of_mem hm)
  have hdistinct : credentialNames.Nodup := by decide
  have hnodup : (members.map Prod.fst).Nodup := hperm.nodup_iff.mpr hdistinct
  have hvalue : ∀ (name : List UInt8) (credential : Credential),
      (name, credential) ∈ [(lit "ssid", ssid), (lit "password", password), (lit "token", token)] →
        quoted (JsonText.memberQuery name) (credentialBody members) =
          some (credential.text.takeWhile (· != quote)) := fun _ _ hmem ↦
    quoted_credentialBody hnames hnodup (horder.mem_iff.mpr hmem)
  have hssid : quoted ssidQuery (credentialBody members) =
      some (ssid.text.takeWhile (· != quote)) := hvalue (lit "ssid") ssid (by simp)
  have hpassword : quoted pwQuery (credentialBody members) =
      some (password.text.takeWhile (· != quote)) := hvalue (lit "password") password (by simp)
  have htoken : quoted tknQuery (credentialBody members) =
      some (token.text.takeWhile (· != quote)) := hvalue (lit "token") token (by simp)
  have hshort : ∀ credential : Credential,
      (credential.text.takeWhile (· != quote)).length < 64 := fun credential ↦
    Nat.lt_succ_of_le ((List.takeWhile_prefix _).length_le.trans credential.short)
  have hnul : ∀ credential : Credential, 0 ∉ credential.text.takeWhile (· != quote) :=
    fun credential hmem ↦ credential.encodes.nul_free ((List.takeWhile_prefix _).subset hmem)
  obtain ⟨text', haccept, hssidArray, hpassArray, htokenArray, _⟩ :=
    acceptText_arrays ctx.text (hnul ssid) (hnul password) (hnul token) (hshort ssid).le
      (hshort password).le (hshort token).le
  have hlong : ¬ ((ssid.text.takeWhile (· != quote)).length > 64 ∨
      (password.text.takeWhile (· != quote)).length > 64 ∨
      (token.text.takeWhile (· != quote)).length > 64) := by
    have hssidShort := hshort ssid
    have hpasswordShort := hshort password
    have htokenShort := hshort token
    omega
  refine ⟨{ ctx with text := text', wifiConfigd := true }, ?_, hssidArray.mpr (hshort ssid),
    hpassArray.mpr (hshort password), htokenArray.mpr (hshort token)⟩
  rw [parseWifiCredentials_holds (holds_append (credentialBody_nul_free hnames)), hssid, hpassword,
    htoken]
  dsimp only
  rw [if_neg hlong, haccept, Option.map_some]

/-- For every context, all strings whose texts have at most 63 bytes, every spelling of them, and
every order of the members. -/
theorem json_round_trip_iff (ctx : AppCtx)
    (horder : members.Perm [(lit "ssid", ssid), (lit "password", password), (lit "token", token)]) :
    RoundTrip (credentialBody members) ctx ssid password token ↔
      JsonText.backslash ∉ ssid.text ∧ JsonText.backslash ∉ password.text ∧
        JsonText.backslash ∉ token.text := by
  obtain ⟨ctx', hrun, hssid, hpassword, htoken⟩ := parse_credentialBody ctx horder
  rw [← ssid.encodes.takeWhile_eq_iff, ← password.encodes.takeWhile_eq_iff,
    ← token.encodes.takeWhile_eq_iff]
  constructor
  · rintro ⟨other, hparse, hssid', hpassword', htoken'⟩
    rw [hrun] at hparse
    obtain ⟨-, rfl⟩ := Prod.mk.inj (Option.some.inj hparse)
    exact ⟨Option.some.inj (hssid.symm.trans hssid'),
      Option.some.inj (hpassword.symm.trans hpassword'),
      Option.some.inj (htoken.symm.trans htoken')⟩
  · rintro ⟨hssid', hpassword', htoken'⟩
    exact ⟨ctx', hrun, hssid.trans (congrArg some hssid'),
      hpassword.trans (congrArg some hpassword'), htoken.trans (congrArg some htoken')⟩

end Parse

/-- A string that stands for itself. -/
def plainCredential (value : List UInt8) (h : ∀ b ∈ value, JsonText.Plain b := by decide)
    (hshort : value.length ≤ 63 := by decide) : Credential :=
  ⟨value, value, JsonText.encodes_plain h, hshort⟩

/-- Nothing is escaped, and the token comes first. -/
theorem json_round_trip_plain :
    RoundTrip (credentialBody [(lit "token", plainCredential (lit "t:1,2")),
        (lit "ssid", plainCredential (lit "home")),
        (lit "password", plainCredential (lit "pass word"))])
      bootCtx (plainCredential (lit "home")) (plainCredential (lit "pass word"))
      (plainCredential (lit "t:1,2")) :=
  (json_round_trip_iff bootCtx (List.perm_append_singleton _ _).symm).mpr (by decide)

/-- Printable characters. -/
def Printable (value : List UInt8) : Prop :=
  ∀ b ∈ value, 32 ≤ b ∧ b ≤ 126

instance (value : List UInt8) : Decidable (Printable value) :=
  List.decidableBAll (fun b ↦ 32 ≤ b ∧ b ≤ 126) value

/-- A password with a quote in it, which is escaped. -/
def quotedPassword : Credential where
  value := [97, 34, 98]
  text := [97, 92, 34, 98]
  encodes := by
    have hfirst : JsonText.piece [97] = some ([97], []) := by decide
    have hquote : JsonText.piece [92, 34] = some ([34], []) := by decide
    have hlast : JsonText.piece [98] = some ([98], []) := by decide
    exact .cons hfirst (.cons hquote (.cons hlast .nil))
  short := by decide

/-- The password ends at its quote, with the backslash. -/
theorem password_cut : ¬ ∀ (ctx : AppCtx) (ssid password token : Credential)
    (members : List (List UInt8 × Credential)), Printable ssid.value → Printable password.value →
    Printable token.value →
    members.Perm [(lit "ssid", ssid), (lit "password", password), (lit "token", token)] →
      RoundTrip (credentialBody members) ctx ssid password token := by
  intro hclaim
  have horder := List.Perm.refl [(lit "ssid", plainCredential (lit "home")),
    (lit "password", quotedPassword), (lit "token", plainCredential (lit "abc"))]
  obtain ⟨ctx', hrun, _, hstored, _⟩ := parse_credentialBody bootCtx horder
  obtain ⟨other, hparse, _, hpassword, _⟩ := hclaim bootCtx (plainCredential (lit "home"))
    quotedPassword (plainCredential (lit "abc")) _ (by decide) (by decide) (by decide)
    horder
  rw [hrun] at hparse
  obtain ⟨-, rfl⟩ := Prod.mk.inj (Option.some.inj hparse)
  rw [hstored] at hpassword
  exact absurd (Option.some.inj hpassword) (by decide)

end DirtieNode.AccessPoint
