import DirtieNode.Library.Memory

/-!
# First occurrences and `strstr`

`splitFirst pat s` cuts a list at the first occurrence of a pattern, into what comes before and
what comes after. `splitFirst_append` says the cut does not depend on what follows the occurrence,
and `splitFirst_separator` that a pattern without the separator is found in one of the two sides
of a separator. `strstr_holds` connects the search in memory to `splitFirst`.
-/

namespace CString

section First

variable {α : Type*} [DecidableEq α]

/-- What precedes and what follows the first occurrence of a pattern. -/
def splitFirst (pat : List α) : List α → Option (List α × List α)
  | [] => if pat = [] then some ([], []) else none
  | b :: rest =>
      if pat <+: b :: rest then some ([], (b :: rest).drop pat.length)
      else (splitFirst pat rest).map fun cut ↦ (b :: cut.1, cut.2)

/-- The two sides of the occurrence make up the list. -/
theorem splitFirst_eq {pat s before after : List α}
    (h : splitFirst pat s = some (before, after)) : s = before ++ pat ++ after := by
  induction s generalizing before with
  | nil =>
      unfold splitFirst at h
      split at h
      · rename_i hpat
        simp only [Option.some.injEq, Prod.mk.injEq] at h
        simp [← h.1, ← h.2, hpat]
      · simp at h
  | cons b rest ih =>
      unfold splitFirst at h
      split at h
      · rename_i hpat
        simp only [Option.some.injEq, Prod.mk.injEq] at h
        obtain ⟨rfl, rfl⟩ := h
        simpa using (List.prefix_iff_eq_append.mp hpat).symm
      · simp only [Option.map_eq_some_iff, Prod.mk.injEq] at h
        obtain ⟨⟨front, tail⟩, hcut, rfl, rfl⟩ := h
        simp [ih hcut]

/-- Where there is no cut, there is no occurrence. -/
theorem splitFirst_eq_none {pat s : List α} (h : splitFirst pat s = none) : ¬ pat <:+: s := by
  induction s with
  | nil =>
      unfold splitFirst at h
      split at h
      · simp at h
      · rename_i hpat
        simpa using hpat
  | cons b rest ih =>
      unfold splitFirst at h
      split at h
      · simp at h
      · rename_i hpat
        simp only [Option.map_eq_none_iff] at h
        rw [List.infix_cons_iff]
        rintro (hstarts | hoccurs)
        · exact hpat hstarts
        · exact ih h hoccurs

theorem splitFirst_eq_none_iff {pat s : List α} : splitFirst pat s = none ↔ ¬ pat <:+: s := by
  refine ⟨splitFirst_eq_none, fun h ↦ ?_⟩
  cases hcut : splitFirst pat s with
  | none => rfl
  | some cut => exact absurd ⟨cut.1, cut.2, (splitFirst_eq hcut).symm⟩ h

/-- A pattern that starts the list is found at once. -/
theorem splitFirst_self (pat after : List α) (hpat : pat ≠ []) :
    splitFirst pat (pat ++ after) = some ([], after) := by
  cases pat with
  | nil => exact absurd rfl hpat
  | cons b rest => simp [splitFirst]

omit [DecidableEq α] in
/-- A prefix test that looks only at the front of a list. -/
theorem prefix_append_iff {pat front : List α} (h : pat.length ≤ front.length) (tail : List α) :
    pat <+: front ++ tail ↔ pat <+: front :=
  ⟨fun hp ↦ List.prefix_of_prefix_length_le hp (List.prefix_append front tail) h,
    fun hp ↦ hp.trans (List.prefix_append front tail)⟩

/-- The first occurrence stays where it is when the text after it is replaced. -/
theorem splitFirst_append {pat before after : List α} (hpat : pat ≠ [])
    (h : splitFirst pat (before ++ pat ++ after) = some (before, after)) (other : List α) :
    splitFirst pat (before ++ pat ++ other) = some (before, other) := by
  induction before with
  | nil => simpa using splitFirst_self pat other hpat
  | cons b rest ih =>
      have hlen : pat.length ≤ (b :: (rest ++ pat)).length := by
        simp only [List.length_cons, List.length_append]
        omega
      have hsame : ∀ tail : List α,
          pat <+: b :: (rest ++ pat ++ tail) ↔ pat <+: b :: (rest ++ pat) :=
        fun tail ↦ prefix_append_iff hlen tail
      simp only [List.cons_append, splitFirst, hsame] at h ⊢
      split at h
      · simp at h
      · rename_i hno
        simp only [Option.map_eq_some_iff, Prod.mk.injEq, List.cons.injEq, true_and] at h
        obtain ⟨⟨front, tail⟩, hcut, hfront, htail⟩ := h
        obtain rfl : front = rest := hfront
        obtain rfl : tail = after := htail
        rw [if_neg hno, ih hcut]
        rfl

/-- No occurrence starts before the one that is found. -/
theorem splitFirst_le {pat s before after front back : List α}
    (h : splitFirst pat s = some (before, after)) (hocc : s = front ++ pat ++ back) :
    before.length ≤ front.length := by
  induction s generalizing before front with
  | nil =>
      have hlen := congrArg List.length (splitFirst_eq h)
      simp only [List.length_nil, List.length_append] at hlen
      omega
  | cons b rest ih =>
      unfold splitFirst at h
      split at h
      · simp only [Option.some.injEq, Prod.mk.injEq] at h
        simp [← h.1]
      · rename_i hno
        simp only [Option.map_eq_some_iff, Prod.mk.injEq] at h
        obtain ⟨cut, hcut, rfl, rfl⟩ := h
        cases front with
        | nil => exact absurd ⟨back, by rw [hocc, List.nil_append]⟩ hno
        | cons c front =>
            have htail := ih hcut (List.cons.inj hocc).2
            simpa using htail

omit [DecidableEq α] in
/-- A pattern without the separator does not reach over it. -/
theorem prefix_separator_iff {pat : List α} {sep : α} (hsep : sep ∉ pat) (s u : List α) :
    pat <+: s ++ sep :: u ↔ pat <+: s := by
  refine ⟨fun h ↦ ?_, fun h ↦ h.trans (List.prefix_append s (sep :: u))⟩
  by_cases hlen : pat.length ≤ s.length
  · exact List.prefix_of_prefix_length_le h (List.prefix_append s (sep :: u)) hlen
  · -- the pattern would cover the separator
    have hcover : s ++ [sep] <+: pat :=
      List.prefix_of_prefix_length_le ⟨u, by simp⟩ h (by simp; omega)
    exact absurd (hcover.subset (by simp)) hsep

/-- The first occurrence in a list with a separator is the one before the separator if there is
one, and the first one after it otherwise. -/
theorem splitFirst_separator {pat : List α} {sep : α} (hsep : sep ∉ pat) (hpat : pat ≠ [])
    (s u : List α) :
    splitFirst pat (s ++ sep :: u) =
      match splitFirst pat s with
      | some (before, after) => some (before, after ++ sep :: u)
      | none => (splitFirst pat u).map fun cut ↦ (s ++ sep :: cut.1, cut.2) := by
  induction s with
  | nil =>
      have hno : ¬ pat <+: sep :: u := by
        rw [show sep :: u = [] ++ sep :: u from rfl, prefix_separator_iff hsep]
        simpa using hpat
      simp [splitFirst, hno, hpat]
  | cons b rest ih =>
      have hsame := prefix_separator_iff hsep (b :: rest) u
      simp only [List.cons_append] at hsame
      simp only [List.cons_append, splitFirst, hsame]
      split
      · rename_i hstarts
        rw [← List.cons_append, List.drop_append_of_le_length hstarts.length_le]
      · rw [ih]
        cases splitFirst pat rest with
        | some cut => rfl
        | none => simp [Option.map_map, Function.comp_def]

omit [DecidableEq α] in
/-- An occurrence of a pattern without the separator is on one side of it. -/
theorem occurrence_separated {pat s u before after : List α} {sep : α} (hsep : sep ∉ pat)
    (hpat : pat ≠ []) (h : s ++ sep :: u = before ++ (pat ++ after)) :
    (∃ tail, s = before ++ (pat ++ tail)) ∨
      ∃ front, before = s ++ sep :: front ∧ u = front ++ (pat ++ after) := by
  rcases List.append_eq_append_iff.mp h with ⟨front, hbefore, hu⟩ | ⟨tail, hs, hpatAfter⟩
  · cases front with
    | nil =>
        obtain ⟨b, rest, rfl⟩ := List.exists_cons_of_ne_nil hpat
        obtain rfl := (List.cons.inj hu).1
        exact absurd List.mem_cons_self hsep
    | cons b front =>
        obtain ⟨rfl, hfront⟩ := List.cons.inj hu
        exact .inr ⟨front, hbefore, hfront⟩
  · rcases List.append_eq_append_iff.mp hpatAfter with ⟨rest, htail, _⟩ | ⟨rest, hpatRest, hrest⟩
    · exact .inl ⟨rest, by rw [hs, htail]⟩
    · cases rest with
      | nil => exact .inl ⟨[], by rw [hs, hpatRest, List.append_nil, List.append_nil]⟩
      | cons b rest =>
          obtain ⟨rfl, _⟩ := List.cons.inj hrest
          exact absurd (hpatRest ▸ List.mem_append_right _ List.mem_cons_self) hsep

/-- An occurrence in the front of a list is the first one of the whole list. -/
theorem splitFirst_append_of_some {pat s before after : List α}
    (h : splitFirst pat s = some (before, after)) (u : List α) :
    splitFirst pat (s ++ u) = some (before, after ++ u) := by
  induction s generalizing before with
  | nil =>
      unfold splitFirst at h
      split at h
      · rename_i hpat
        simp only [Option.some.injEq, Prod.mk.injEq] at h
        obtain ⟨rfl, rfl⟩ := h
        cases u <;> simp [splitFirst, hpat]
      · simp at h
  | cons b rest ih =>
      simp only [List.cons_append, splitFirst] at h ⊢
      split at h
      · rename_i hstarts
        simp only [Option.some.injEq, Prod.mk.injEq] at h
        obtain ⟨rfl, rfl⟩ := h
        have hlonger : pat <+: b :: (rest ++ u) := hstarts.trans (List.prefix_append (b :: rest) u)
        rw [if_pos hlonger, ← List.cons_append, List.drop_append_of_le_length hstarts.length_le]
      · rename_i hno
        simp only [Option.map_eq_some_iff, Prod.mk.injEq] at h
        obtain ⟨⟨front, tail⟩, hcut, rfl, rfl⟩ := h
        have hlen : pat.length ≤ (b :: rest).length := by
          rw [splitFirst_eq hcut]
          simp only [List.length_cons, List.length_append]
          omega
        have hlonger : ¬ pat <+: b :: (rest ++ u) := mt (prefix_append_iff hlen u).mp hno
        rw [if_neg hlonger, ih hcut]
        rfl

omit [DecidableEq α] in
/-- A pattern that has the separator at its end only does not reach over it. -/
theorem prefix_boundary_iff {pat : List α} {sep : α} (hsep : sep ∉ pat.dropLast) (s u : List α) :
    pat <+: s ++ sep :: u ↔ pat <+: s ++ [sep] := by
  rw [← List.singleton_append, ← List.append_assoc]
  refine ⟨fun h ↦ ?_, fun h ↦ h.trans (List.prefix_append (s ++ [sep]) u)⟩
  by_cases hlen : pat.length ≤ (s ++ [sep]).length
  · exact List.prefix_of_prefix_length_le h (List.prefix_append (s ++ [sep]) u) hlen
  · -- the separator would come before the end of the pattern
    have hcover : s ++ [sep] <+: pat :=
      List.prefix_of_prefix_length_le (List.prefix_append (s ++ [sep]) u) h (by omega)
    obtain ⟨rest, rfl⟩ := hcover
    have hrest : rest ≠ [] := by
      rintro rfl
      simp at hlen
    rw [List.dropLast_append_of_ne_nil hrest] at hsep
    simp at hsep

/-- Without an occurrence up to a separator at which the pattern can only end, the first
occurrence is the first one behind it. -/
theorem splitFirst_boundary {pat : List α} {sep : α} (hsep : sep ∉ pat.dropLast) (s u : List α)
    (h : splitFirst pat (s ++ [sep]) = none) :
    splitFirst pat (s ++ sep :: u) =
      (splitFirst pat u).map fun cut ↦ (s ++ sep :: cut.1, cut.2) := by
  induction s with
  | nil =>
      have hno : ¬ pat <+: sep :: u := by
        intro hstarts
        have hshort := (prefix_boundary_iff hsep [] u).mp hstarts
        exact splitFirst_eq_none h hshort.isInfix
      simp [splitFirst, hno]
  | cons b rest ih =>
      have hoccurs := splitFirst_eq_none h
      have hno : ¬ pat <+: b :: (rest ++ sep :: u) := fun hstarts ↦
        hoccurs ((prefix_boundary_iff hsep (b :: rest) u).mp hstarts).isInfix
      have hrest : splitFirst pat (rest ++ [sep]) = none := by
        rw [splitFirst_eq_none_iff]
        exact fun hocc ↦ hoccurs (List.infix_cons hocc)
      simp [splitFirst, hno, ih hrest, Option.map_map, Function.comp_def]

end First

/-! ## `strstr` -/

/-- `strstr`: the offset of the first occurrence of the pattern in the string, or `NULL`. -/
def strstr (mem pat : List UInt8) : Option (Option Nat) :=
  match mem with
  | [] => none
  | b :: rest =>
      if pat <+: b :: rest then some (some 0)
      else if b = 0 then some none
      else (strstr rest pat).map (Option.map (· + 1))

/-- On an object that holds a string, `strstr` finds the first occurrence in that string. -/
theorem strstr_holds {mem s pat : List UInt8} (h : Holds mem s) (hpat : pat ≠ [])
    (hnul : 0 ∉ pat) : strstr mem pat = some ((splitFirst pat s).map fun cut ↦ cut.1.length) := by
  obtain ⟨rest, rfl, hs⟩ := h
  induction s with
  | nil =>
      have hno : ¬ pat <+: 0 :: rest := by
        rw [show 0 :: rest = [] ++ 0 :: rest from rfl, prefix_separator_iff hnul]
        simpa using hpat
      simp [strstr, splitFirst, hno, hpat]
  | cons b s ih =>
      have hb : b ≠ 0 := fun heq ↦ hs (by simp [heq])
      have hrec := ih (fun hmem ↦ hs (List.mem_cons_of_mem b hmem))
      have hsame := prefix_separator_iff hnul (b :: s) rest
      simp only [List.cons_append] at hsame
      simp only [List.cons_append, strstr, splitFirst, hsame, hb, if_false, hrec]
      split
      · rfl
      · simp [Option.map_map, Function.comp_def]

/-- A search that comes back empty has seen the terminator. -/
theorem zero_mem_of_strstr_null {mem pat : List UInt8} (h : strstr mem pat = some none) :
    0 ∈ mem := by
  induction mem with
  | nil => simp [strstr] at h
  | cons b rest ih =>
      unfold strstr at h
      split at h
      · simp at h
      · split at h
        · simp_all
        · simp only [Option.map_eq_some_iff, Option.map_eq_none_iff, exists_eq_right] at h
          exact List.mem_cons_of_mem b (ih h)

end CString
