import DirtieNode.Library.Json

/-!
# JSON objects with arrays

A reader for the compact JSON texts of objects whose values are strings or arrays of strings.
`Written value text` says that a text stands for a value, and `document_objectText` that an object
of such texts is read back.
-/

namespace JsonText

/-- The value of a member. -/
inductive Value where
  | string (value : List UInt8)
  | array (values : List (List UInt8))
  deriving DecidableEq

/-- The rest of an array behind its opening bracket, and what follows it. -/
def elements : List UInt8 → Option (List (List UInt8) × List UInt8)
  | [] => none
  | b :: s => if b = 93 then some ([], s) else items string 93 (s.length + 1) (b :: s)

/-- A value, and what follows it. -/
def value : List UInt8 → Option (Value × List UInt8)
  | [] => none
  | b :: s =>
      if b = 91 then (elements s).map fun (values, s) ↦ (.array values, s)
      else (string (b :: s)).map fun (value, s) ↦ (.string value, s)

/-- A member of an object, with any value. -/
def valueMember (s : List UInt8) : Option ((List UInt8 × Value) × List UInt8) :=
  (string s).bind fun (name, s) ↦
    match s with
    | [] => none
    | b :: s => if b = colon then (value s).map fun (value, s) ↦ ((name, value), s) else none

/-- A compact object. -/
def document : List UInt8 → Option (List (List UInt8 × Value)) :=
  enclosed valueMember 123 125

/-- The text stands for the value. An array comes with the texts of its elements. -/
inductive Written : Value → List UInt8 → Prop
  | string {value text : List UInt8} (h : Encodes value text) :
      Written (.string value) (inQuotes text)
  | array {texts : List (List UInt8 × List UInt8)} (h : ∀ t ∈ texts, Encodes t.1 t.2) :
      Written (.array (texts.map Prod.fst)) (arrayText (texts.map fun t ↦ inQuotes t.2))

/-- Strings behind an opening bracket are read up to the closing one. -/
theorem elements_separated {texts : List (List UInt8 × List UInt8)}
    (h : ∀ t ∈ texts, Encodes t.1 t.2) (rest : List UInt8) :
    elements (separated (texts.map fun t ↦ inQuotes t.2) ++ 93 :: rest) =
      some (texts.map Prod.fst, rest) := by
  cases texts with
  | nil => rfl
  | cons t texts =>
      have hclose : comma ≠ 93 := by decide
      have hitem : ∀ t' ∈ t :: texts, ∀ rest,
          string (inQuotes t'.2 ++ rest) = some (t'.1, rest) := fun t' ht rest ↦
        string_encodes (h t' ht) rest
      obtain ⟨s, hs⟩ : ∃ s, separated ((t :: texts).map fun t ↦ inQuotes t.2) = quote :: s := by
        cases texts with
        | nil => exact ⟨t.2 ++ [quote], by rw [List.map_singleton, separated_singleton]; rfl⟩
        | cons next texts =>
            rw [List.map_cons, List.map_cons, separated_cons]
            exact ⟨_, rfl⟩
      have hmany : (t :: texts).length ≤ (s ++ 93 :: rest).length + 1 := by
        have hle := length_le_separated ((t :: texts).map fun t ↦ inQuotes t.2)
        rw [List.length_map, hs] at hle
        simp only [List.length_cons, List.length_append] at hle ⊢
        omega
      have hread := items_separated hclose (List.cons_ne_nil t texts) hitem hmany rest
      rw [hs, List.cons_append] at hread ⊢
      exact hread

/-- A value is read back. -/
theorem value_written {v : Value} {text : List UInt8} (h : Written v text) (rest : List UInt8) :
    value (text ++ rest) = some (v, rest) := by
  cases h with
  | @string s text h =>
      have hread : JsonText.string (quote :: (text ++ [quote] ++ rest)) = some (s, rest) :=
        string_encodes h rest
      show (JsonText.string (quote :: (text ++ [quote] ++ rest))).map _ = _
      rw [hread]
      rfl
  | array h =>
      have hread := elements_separated h rest
      rw [arrayText, List.cons_append, List.append_assoc]
      show (elements _).map _ = _
      rw [List.singleton_append, hread]
      rfl

/-- An object is read back when each text stands for its value. -/
theorem document_objectText {members : List (List UInt8 × Value × List UInt8)}
    (h : ∀ m ∈ members, (∀ b ∈ m.1, Plain b) ∧ Written m.2.1 m.2.2) :
    document (objectText (members.map fun m ↦ inQuotes m.1 ++ colon :: m.2.2)) =
      some (members.map fun m ↦ (m.1, m.2.1)) := by
  refine enclosed_separated 123 (by decide) (fun m hm rest ↦ ?_) fun m _ ↦ by
    simp [inQuotes]
  obtain ⟨hname, hvalue⟩ := h m hm
  rw [List.append_assoc, List.cons_append, valueMember, string_encodes (encodes_plain hname)]
  show (value (m.2.2 ++ rest)).map _ = _
  rw [value_written hvalue]
  rfl

end JsonText
