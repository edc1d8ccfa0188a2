import DirtieNode.Logger.Line

/-!
# Truncated lines

A message that does not fit is cut so that a mark and a terminator have room behind it. The buffer
holds `MAX_LOG_LEN` bytes, but the test for a message that does not fit leaves out the terminator:
a message that would end where the terminator has to be loses its last byte and is not marked.
-/

namespace DirtieNode.Logger

open CString

/-- `truncmark`. -/
def truncmark : List UInt8 := lit "...[TCD]"

/-- A message that is too long for a buffer ends in the mark. -/
def markedLine (mesg : List UInt8) : List UInt8 :=
  if mesg.length ≤ maxLogLen - 1 then mesg
  else mesg.take (maxLogLen - 9) ++ truncmark

/-- A block of `MAX_LOG_LEN` bytes with a line and its terminator in it. -/
structure HoldsLine (buf line : List UInt8) : Prop where
  size : buf.length = maxLogLen
  text : ∃ rest, buf = line ++ 0 :: rest

/-- `dlog` stores the message whole or with the mark. -/
def TruncationMarked (ms : Nat) (lvl : LogLvl) (mesg : List UInt8) : Prop :=
  ∀ logs, ∃ buf, (dlog { ms := ms } lvl mesg logs).2.heap.bufs = logs.heap.bufs ++ [buf] ∧
    HoldsLine buf (markedLine (logPrefix ms lvl ++ mesg))

/-- The message has just one byte too many, and other text than the mark in the place of the
mark. -/
def LosesByte (mesg : List UInt8) : Prop :=
  mesg.length = maxLogLen ∧ (mesg.drop (maxLogLen - 9)).take truncmark.length ≠ truncmark

/-- A message of any other length loses nothing. -/
theorem not_losesByte {mesg : List UInt8} (h : mesg.length ≠ maxLogLen) : ¬ LosesByte mesg := by
  intro hlost
  exact h hlost.1

section Lines

variable {ms : Nat} (lvl : LogLvl) (mesg : List UInt8)

/-- What `snprintf` and `vsnprintf` write: all but the last byte of the buffer is theirs. -/
theorem printed_eq_take (h : ms < 2 ^ 64) :
    logPrefix ms lvl ++ mesg.take (maxLogLen - (logPrefix ms lvl).length - 1) =
      (logPrefix ms lvl ++ mesg).take (maxLogLen - 1) := by
  have hpx := logPrefix_length lvl h
  have hmax : maxLogLen = 1024 := rfl
  have hroom : maxLogLen - (logPrefix ms lvl).length - 1 =
      maxLogLen - 1 - (logPrefix ms lvl).length := by omega
  rw [List.take_append, List.take_of_length_le (show (logPrefix ms lvl).length ≤ _ by omega), hroom]

/-- `needed` is not greater than `remaining`. -/
theorem logLine_of_fits (h : ms < 2 ^ 64)
    (hfits : (logPrefix ms lvl ++ mesg).length ≤ maxLogLen) :
    logLine ms lvl mesg = (logPrefix ms lvl ++ mesg).take (maxLogLen - 1) := by
  rw [List.length_append] at hfits
  rw [← printed_eq_take lvl mesg h]
  exact if_neg (by omega)

/-- `needed` is greater than `remaining`. -/
theorem logLine_of_long (h : ms < 2 ^ 64)
    (hlong : maxLogLen < (logPrefix ms lvl ++ mesg).length) :
    logLine ms lvl mesg = (logPrefix ms lvl ++ mesg).take (maxLogLen - 9) ++ truncmark := by
  have hpx := logPrefix_length lvl h
  have hmax : maxLogLen = 1024 := rfl
  have hcut : (logPrefix ms lvl ++ mesg).take (maxLogLen - 9) =
      ((logPrefix ms lvl ++ mesg).take (maxLogLen - 1)).take (maxLogLen - 9) := by
    rw [List.take_take, show min (maxLogLen - 9) (maxLogLen - 1) = maxLogLen - 9 from rfl]
  rw [List.length_append] at hlong
  rw [hcut, ← printed_eq_take lvl mesg h]
  exact if_pos (by omega)

/-- A line has the length of the one it should be. -/
theorem logLine_length_eq (h : ms < 2 ^ 64) :
    (logLine ms lvl mesg).length = (markedLine (logPrefix ms lvl ++ mesg)).length := by
  have hmax : maxLogLen = 1024 := rfl
  have hmark : truncmark.length = 8 := rfl
  unfold markedLine
  by_cases hfits : (logPrefix ms lvl ++ mesg).length ≤ maxLogLen
  · rw [logLine_of_fits lvl mesg h hfits, List.length_take]
    split
    · omega
    · rw [@List.length_append _ (List.take _ _), List.length_take, hmark]
      omega
  · rw [logLine_of_long lvl mesg h (by omega), if_neg (by omega)]

/-- Only a message of exactly the size of the buffer can be stored wrongly. -/
theorem logLine_eq_markedLine_iff (h : ms < 2 ^ 64) :
    logLine ms lvl mesg = markedLine (logPrefix ms lvl ++ mesg) ↔
      ¬ LosesByte (logPrefix ms lvl ++ mesg) := by
  have hmax : maxLogLen = 1024 := rfl
  by_cases hlong : maxLogLen < (logPrefix ms lvl ++ mesg).length
  · refine iff_of_true ?_ (not_losesByte (by omega))
    rw [logLine_of_long lvl mesg h hlong, markedLine, if_neg (by omega)]
  rw [logLine_of_fits lvl mesg h (by omega), markedLine]
  by_cases hfits : (logPrefix ms lvl ++ mesg).length ≤ maxLogLen - 1
  · refine iff_of_true ?_ (not_losesByte (by omega))
    rw [if_pos hfits, List.take_of_length_le hfits]
  · -- `needed` and `remaining` are equal
    have hsize : (logPrefix ms lvl ++ mesg).length = maxLogLen := by omega
    have hparts : (logPrefix ms lvl ++ mesg).take (maxLogLen - 1) =
        (logPrefix ms lvl ++ mesg).take (maxLogLen - 9) ++
          ((logPrefix ms lvl ++ mesg).drop (maxLogLen - 9)).take truncmark.length := by
      rw [← List.take_add]
      rfl
    rw [if_neg hfits, hparts, List.append_cancel_left_eq, LosesByte, and_iff_right hsize, not_not]

/-- The buffer holds the line that is in it, and only that line of its length. -/
theorem truncationMarked_iff_logLine (h : ms < 2 ^ 64) :
    TruncationMarked ms lvl mesg ↔
      logLine ms lvl mesg = markedLine (logPrefix ms lvl ++ mesg) := by
  have hshort := logLine_length lvl mesg h
  constructor
  · intro hmarked
    obtain ⟨buf, hbuf, -, rest, htext⟩ := hmarked {}
    rw [dlog_bufs rfl, List.append_cancel_left_eq, List.cons.injEq] at hbuf
    have hsame : logLine ms lvl mesg ++
        List.replicate (maxLogLen - (logLine ms lvl mesg).length) 0 =
          markedLine (logPrefix ms lvl ++ mesg) ++ 0 :: rest := hbuf.1.trans htext
    exact (List.append_inj hsame (logLine_length_eq lvl mesg h)).1
  · intro hline logs
    refine ⟨printbuf (logLine ms lvl mesg), dlog_bufs rfl lvl mesg logs, printbuf_length hshort, ?_⟩
    obtain ⟨room, hroom⟩ := Nat.exists_eq_add_of_lt hshort
    refine ⟨List.replicate room 0, ?_⟩
    rw [← hline, printbuf, show maxLogLen - (logLine ms lvl mesg).length = room + 1 by omega,
      List.replicate_succ]

end Lines

/-- `dlog` stores every message whole or with the mark, but for those that have just one byte too
many. -/
theorem truncation_marked_iff {ms : Nat} (h : ms < 2 ^ 64) (lvl : LogLvl) (mesg : List UInt8) :
    TruncationMarked ms lvl mesg ↔ ¬ LosesByte (logPrefix ms lvl ++ mesg) := by
  rw [truncationMarked_iff_logLine lvl mesg h]
  exact logLine_eq_markedLine_iff lvl mesg h

/-- A line of 1124 bytes is cut and has the mark at its end. -/
theorem truncation_marked_long : TruncationMarked 1234 .info (List.replicate 1100 97) := by
  have hms : 1234 < 2 ^ 64 := by omega
  have hpx : (logPrefix 1234 .info).length = 24 := by decide
  have hsize : (logPrefix 1234 .info ++ List.replicate 1100 97).length ≠ maxLogLen := by
    rw [List.length_append, hpx, List.length_replicate]
    decide
  exact (truncation_marked_iff hms .info _).mpr (not_losesByte hsize)

/-- The message that needs the byte of the terminator is cut without a mark. -/
theorem truncation_unmarked : ¬ TruncationMarked 1234 .info (List.replicate 1000 97) := by
  have hpx : (logPrefix 1234 .info).length = 24 := by decide
  have hlost : LosesByte (logPrefix 1234 .info ++ List.replicate 1000 97) := by
    constructor
    · rw [List.length_append, hpx, List.length_replicate]
      rfl
    · rw [List.drop_append, hpx, List.drop_replicate, List.drop_of_length_le (by rw [hpx]; decide)]
      decide
  rw [truncationMarked_iff_logLine .info _ (by omega), logLine_eq_markedLine_iff .info _ (by omega)]
  exact not_not.mpr hlost

end DirtieNode.Logger
