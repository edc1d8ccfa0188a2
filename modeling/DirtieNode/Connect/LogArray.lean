import DirtieNode.Connect.Connect
import DirtieNode.Logger.Line

/-!
# The array of logs

What the loop of `logdump` makes of the logs: their messages are in the text, and the heap keeps
them.
-/

namespace DirtieNode.Connect

open CString Logger State

/-- The text has the message in base64 between quotes, with any time in front of it. -/
def Carries (text line : List UInt8) : Prop :=
  ∃ sent, SameMessage sent line ∧ lit "\"" ++ b64Encode sent ++ lit "\"" <:+: text

/-- The text carries every line with the same message. -/
theorem Carries.congr {text line line' : List UInt8} (h : Carries text line)
    (hsame : SameMessage line line') : Carries text line' := by
  obtain ⟨sent, hsent, hinside⟩ := h
  exact ⟨sent, hsent.trans hsame, hinside⟩

/-- A longer text carries the line too. -/
theorem Carries.mono {text text' line : List UInt8} (h : Carries text line)
    (hinside : text <:+: text') : Carries text' line := by
  obtain ⟨sent, hsent, hpart⟩ := h
  exact ⟨sent, hsent, hpart.trans hinside⟩

/-- The text of the array in front of the encoding of slot `i`. -/
def logOpen (i : Nat) (text : List UInt8) : List UInt8 :=
  (if i > 0 then text ++ lit "," else text) ++ lit "\""

/-- The text of the array is kept in front. -/
theorem logOpen_grows (i : Nat) (text : List UInt8) : text <+: logOpen i text := by
  unfold logOpen
  split
  · exact ⟨lit "," ++ lit "\"", by simp⟩
  · exact List.prefix_append _ _

/-- One round of the loop. -/
theorem logArray_cons (env : Env) (now hwnow i : Nat) (buf : BufId)
    (slots : List (Option BufId)) (heap : Heap) (text : List UInt8) :
    logArray env now hwnow i (some buf :: slots) heap text =
      if env.b64 i = false then (.malloc, heap.rebase now hwnow buf, logOpen i text)
      else logArray env now hwnow (i + 1) slots (heap.rebase now hwnow buf)
        (logOpen i text ++ b64Encode (logText (heap.rebase now hwnow buf) buf) ++ lit "\"") := by
  show (if !env.b64 i then _ else _) = _
  cases env.b64 i <;> rfl

variable {env : Env} {now hwnow i : Nat} {slots : List (Option BufId)} {heap heap' : Heap}
  {text text' : List UInt8}

/-- Encoding the logs stops at the first failure, and changes texts only. -/
theorem logArray_cases (env : Env) (now hwnow i : Nat) (slots : List (Option BufId)) (heap : Heap)
    (text : List UInt8) :
    let result := logArray env now hwnow i slots heap text
    (result.1 = .ok ↔ ∀ j < (slots.takeWhile Option.isSome).length, env.b64 (i + j) = true) ∧
      result.2.1.bufs.length = heap.bufs.length ∧ result.2.1.frees = heap.frees := by
  induction slots generalizing i heap text with
  | nil => simp [logArray]
  | cons slot slots ih =>
      cases slot with
      | none => simp [logArray]
      | some buf =>
          rw [logArray_cons]
          cases hencoded : env.b64 i with
          | false =>
              refine ⟨iff_of_false (by simp) fun hall ↦ ?_, by simp [Heap.rebase], rfl⟩
              have hfirst := hall 0 (by simp)
              simp [hencoded] at hfirst
          | true =>
              rw [if_neg (by simp)]
              refine ⟨(ih _ _ _).1.trans ?_, (ih _ _ _).2.1.trans (by simp [Heap.rebase]),
                (ih _ _ _).2.2⟩
              constructor
              · intro hrest j hj
                cases j with
                | zero => exact hencoded
                | succ j =>
                    have := hrest j (by simpa using hj)
                    rwa [Nat.add_assoc, Nat.add_comm 1 j] at this
              · intro hall j hj
                have := hall (j + 1) (by simpa using hj)
                rwa [Nat.add_assoc, Nat.add_comm 1 j]

/-- The buffers still hold lines, however far the loop gets. -/
theorem logArray_lines (env : Env) (now hwnow i : Nat) (slots : List (Option BufId))
    (text : List UInt8) (h : heap.Lines) :
    (logArray env now hwnow i slots heap text).2.1.Lines := by
  induction slots generalizing i heap text with
  | nil => exact h
  | cons slot slots ih =>
      cases slot with
      | none => exact h
      | some buf =>
          rw [logArray_cons]
          split
          · exact h.rebase
          · exact ih _ _ h.rebase

/-- The text only grows. -/
theorem logArray_grows (env : Env) (now hwnow i : Nat) (slots : List (Option BufId)) (heap : Heap)
    (text : List UInt8) : text <+: (logArray env now hwnow i slots heap text).2.2 := by
  induction slots generalizing i heap text with
  | nil => exact List.prefix_rfl
  | cons slot slots ih =>
      cases slot with
      | none => exact List.prefix_rfl
      | some buf =>
          rw [logArray_cons]
          split
          · exact logOpen_grows i text
          · refine (logOpen_grows i text).trans (List.IsPrefix.trans ?_ (ih _ _ _))
            rw [List.append_assoc]
            exact List.prefix_append _ _

/-- A loop that gets through has put the message of each slot up to the first free one into the
text. -/
theorem logArray_carries (h : heap.Lines)
    (hrun : logArray env now hwnow i slots heap text = (.ok, heap', text')) :
    ∀ buf, some buf ∈ slots.takeWhile Option.isSome → Carries text' (logText heap buf) := by
  induction slots generalizing i heap text with
  | nil => simp
  | cons slot slots ih =>
      cases slot with
      | none => simp
      | some buf =>
          rw [logArray_cons] at hrun
          split at hrun
          · simp at hrun
          · intro other hother
            rw [List.takeWhile_cons_of_pos rfl, List.mem_cons] at hother
            have hsame : SameMessage (logText (heap.rebase now hwnow buf) other)
                (logText heap other) := h.rebase_sameMessage other
            refine Carries.congr ?_ hsame
            rcases hother with hfirst | hrest
            · obtain rfl := Option.some.inj hfirst
              have hgrown := logArray_grows env now hwnow (i + 1) slots
                (heap.rebase now hwnow other)
                (logOpen i text ++ b64Encode (logText (heap.rebase now hwnow other) other) ++
                  lit "\"")
              rw [hrun] at hgrown
              refine Carries.mono ⟨logText (heap.rebase now hwnow other) other, .refl _, ?_⟩
                hgrown.isInfix
              refine ⟨if i > 0 then text ++ lit "," else text, [], ?_⟩
              simp only [logOpen, List.append_assoc, List.append_nil]
            · exact ih h.rebase hrun other hrest

end DirtieNode.Connect
