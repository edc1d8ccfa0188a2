import Mathlib.Data.List.GetD
import DirtieNode.Logger.Logger

/-!
# Log lines

A log buffer holds a bracket, the 13 digits of a time, and the rest of the line that `dlog` made.
`log_transform_ts` exchanges the digits and leaves the rest.
-/

namespace DirtieNode.Logger

open CString

/-- The number of digits of a time in a line. -/
def stampLen : Nat := 13

/-- The buffer starts with a bracket and the digits of a time. -/
def IsLine (buf : List UInt8) : Prop :=
  ∃ stamp rest, buf = lit "[" ++ stamp ++ rest ∧ stamp.length = stampLen ∧ 0 ∉ stamp

/-- The string in a buffer. -/
def lineText (buf : List UInt8) : List UInt8 :=
  buf.takeWhile (· != 0)

/-- The lines agree up to the digits of their time. -/
structure SameMessage (line line' : List UInt8) : Prop where
  bracket : line.take 1 = line'.take 1
  rest : line.drop (1 + stampLen) = line'.drop (1 + stampLen)

/-- A line has its own message. -/
theorem SameMessage.refl (line : List UInt8) : SameMessage line line := ⟨rfl, rfl⟩

/-- Having the same message goes both ways. -/
theorem SameMessage.symm {line line' : List UInt8} (h : SameMessage line line') :
    SameMessage line' line :=
  ⟨h.bracket.symm, h.rest.symm⟩

/-- Having the same message goes from line to line. -/
theorem SameMessage.trans {line line' line'' : List UInt8} (h : SameMessage line line')
    (h' : SameMessage line' line'') : SameMessage line line'' :=
  ⟨h.bracket.trans h'.bracket, h.rest.trans h'.rest⟩

section Parts

variable {stamp stamp' rest : List UInt8}

/-- The rest of a line is behind the bracket and the digits. -/
theorem bracket_stamp_length (hlength : stamp.length = stampLen) :
    (lit "[" ++ stamp).length = 1 + stampLen := by
  rw [List.length_append, hlength]
  rfl

/-- What is behind the time of a line. -/
theorem drop_stamp (hlength : stamp.length = stampLen) :
    (lit "[" ++ stamp ++ rest).drop (1 + stampLen) = rest := by
  rw [← bracket_stamp_length hlength, List.drop_left]

/-- The string in a line goes on behind the digits. -/
theorem lineText_line (hstamp : 0 ∉ stamp) :
    lineText (lit "[" ++ stamp ++ rest) = lit "[" ++ stamp ++ lineText rest := by
  have hnonzero : ∀ b ∈ lit "[" ++ stamp, (b != 0) = true := by
    intro b hb
    rw [bne_iff_ne]
    rintro rfl
    rcases List.mem_append.mp hb with hbracket | hdigits
    · exact absurd hbracket (by decide)
    · exact hstamp hdigits
  exact List.takeWhile_append_of_pos hnonzero

/-- Two times in front of the same rest make the same message. -/
theorem sameMessage_of_stamps (hlength : stamp.length = stampLen) (hstamp : 0 ∉ stamp)
    (hlength' : stamp'.length = stampLen) (hstamp' : 0 ∉ stamp') :
    SameMessage (lineText (lit "[" ++ stamp ++ rest)) (lineText (lit "[" ++ stamp' ++ rest)) := by
  rw [lineText_line hstamp, lineText_line hstamp']
  exact ⟨rfl, by rw [drop_stamp hlength, drop_stamp hlength']⟩

end Parts

/-! ## Lines from `dlog` -/

/-- A line stays one with more text behind it. -/
theorem isLine_append {px : List UInt8} (h : IsLine px) (rest : List UInt8) :
    IsLine (px ++ rest) := by
  obtain ⟨stamp, tail, rfl, hlength, hstamp⟩ := h
  exact ⟨stamp, tail ++ rest, by simp only [List.append_assoc], hlength, hstamp⟩

/-- The truncation leaves the time. -/
theorem isLine_take {line : List UInt8} (h : IsLine line) {n : Nat} (hn : 1 + stampLen ≤ n) :
    IsLine (line.take n) := by
  obtain ⟨stamp, rest, rfl, hlength, hstamp⟩ := h
  have hall := bracket_stamp_length hlength
  refine ⟨stamp, rest.take (n - (lit "[" ++ stamp).length), ?_, hlength, hstamp⟩
  rw [List.take_append, List.take_of_length_le (by omega)]

/-- A time of more than 13 digits has its last ones in the rest. -/
theorem isLine_logPrefix (ms : Nat) (lvl : LogLvl) : IsLine (logPrefix ms lvl) := by
  have hwide : stampLen ≤ (zeroPad 13 (decimal ms)).length := by
    rw [zeroPad_length]
    exact le_max_left _ _
  refine ⟨(zeroPad 13 (decimal ms)).take stampLen, (zeroPad 13 (decimal ms)).drop stampLen ++
    (lit "] [" ++ (if lvl = .info then lit "INFO" else lit "ERROR") ++ lit "]: "), ?_, ?_, ?_⟩
  · conv_lhs => rw [logPrefix, ← List.take_append_drop stampLen (zeroPad 13 (decimal ms))]
    simp only [List.append_assoc]
  · rw [List.length_take]
    omega
  · exact fun hmem ↦ zero_notMem_zeroPad 13 ms (List.mem_of_mem_take hmem)

/-- `dlog` writes lines. -/
theorem isLine_logLine (ms : Nat) (lvl : LogLvl) (mesg : List UInt8) :
    IsLine (logLine ms lvl mesg) := by
  have hline := isLine_append (isLine_logPrefix ms lvl)
    (mesg.take (maxLogLen - (logPrefix ms lvl).length - 1))
  unfold logLine
  dsimp only
  split
  · exact isLine_append (isLine_take hline (by decide)) _
  · exact hline

/-- The buffer that `dlog` fills starts with a line. -/
theorem isLine_printbuf (ms : Nat) (lvl : LogLvl) (mesg : List UInt8) :
    IsLine (printbuf (logLine ms lvl mesg)) :=
  isLine_append (isLine_logLine ms lvl mesg) _

/-- What `dlog` puts into the heap. -/
theorem dlog_bufs {env : LogEnv} (h : env.mallocOk = true) (lvl : LogLvl) (mesg : List UInt8)
    (logs : Logs) : (dlog env lvl mesg logs).2.heap.bufs =
      logs.heap.bufs ++ [printbuf (logLine env.ms lvl mesg)] := by
  unfold dlog
  rw [h]
  simp only [Bool.not_true, Bool.false_eq_true, if_false, Heap.alloc]
  split <;> rfl

/-! ## `log_transform_ts` -/

/-- The time that `log_transform_ts` writes into a line. -/
def epochTs (buf : List UInt8) (now hwnow : Nat) : Nat :=
  (now + 2 ^ 64 - (hwnow + 2 ^ 64 - strtoull (buf.drop 1)) % 2 ^ 64) % 2 ^ 64

/-- The digits of a time in a line. -/
def stampOf (ts : Nat) : List UInt8 :=
  (zeroPad 13 (decimal ts)).take stampLen

/-- The text of a time has 13 digits. -/
theorem stampOf_length (ts : Nat) : (stampOf ts).length = stampLen := by
  rw [stampOf, List.length_take, zeroPad_length]
  exact min_eq_left (le_max_left _ _)

/-- The text of a time has no terminator. -/
theorem zero_notMem_stampOf (ts : Nat) : 0 ∉ stampOf ts :=
  fun hmem ↦ zero_notMem_zeroPad 13 ts (List.mem_of_mem_take hmem)

/-- `log_transform_ts` exchanges the digits. -/
theorem logTransformTs_stamp {stamp : List UInt8} (hlength : stamp.length = stampLen)
    (rest : List UInt8) (now hwnow : Nat) :
    logTransformTs (lit "[" ++ stamp ++ rest) now hwnow =
      lit "[" ++ stampOf (epochTs (lit "[" ++ stamp ++ rest) now hwnow) ++ rest := by
  have hbracket : strchr (lit "[" ++ stamp ++ rest) 91 = some (some 0) := rfl
  have htake : (lit "[" ++ stamp ++ rest).take (0 + 1) = lit "[" := rfl
  have hdrop : (lit "[" ++ stamp ++ rest).drop (0 + 1 + 13) = rest := drop_stamp hlength
  unfold logTransformTs
  simp only [hbracket, htake, hdrop]
  rfl

/-- `log_transform_ts` makes a line of the same message. -/
theorem logTransformTs_line {buf : List UInt8} (h : IsLine buf) (now hwnow : Nat) :
    IsLine (logTransformTs buf now hwnow) ∧
      SameMessage (lineText (logTransformTs buf now hwnow)) (lineText buf) := by
  obtain ⟨stamp, rest, rfl, hlength, hstamp⟩ := h
  rw [logTransformTs_stamp hlength]
  exact ⟨⟨_, rest, rfl, stampOf_length _, zero_notMem_stampOf _⟩,
    sameMessage_of_stamps (stampOf_length _) (zero_notMem_stampOf _) hlength hstamp⟩

/-- A buffer as `dlog` leaves it: its line has a terminator in `MAX_LOG_LEN` bytes. -/
structure Whole (buf : List UInt8) : Prop where
  line : IsLine buf
  terminated : 0 ∈ buf
  short : (lineText buf).length < maxLogLen

/-- A line with room for its terminator does not make the block larger. -/
theorem printbuf_length {line : List UInt8} (hlen : line.length < maxLogLen) :
    (printbuf line).length = maxLogLen := by
  rw [printbuf, List.length_append, List.length_replicate]
  omega

/-- A line that is shorter than the buffer is whole in it. -/
theorem whole_printbuf {line : List UInt8} (hline : IsLine line)
    (hlen : line.length < maxLogLen) : Whole (printbuf line) := by
  have hterm : 0 ∈ printbuf line :=
    List.mem_append_right _ (List.mem_replicate.mpr ⟨Nat.sub_ne_zero_of_lt hlen, rfl⟩)
  have hshort := (holds_takeWhile hterm).length_lt
  rw [printbuf_length hlen] at hshort
  exact ⟨isLine_append hline _, hterm, hshort⟩

/-- The prefix of a line has at most 32 characters. -/
theorem logPrefix_length (lvl : LogLvl) {ms : Nat} (h : ms < 2 ^ 64) :
    (logPrefix ms lvl).length ≤ 32 := by
  have hdigits : (decimal ms).length ≤ 20 := by
    rw [decimal, ascii, List.length_map]
    exact (Nat.length_toDigits_le_iff (by decide) (by decide)).mpr (h.trans (by decide))
  have hlevel : (if lvl = .info then lit "INFO" else lit "ERROR").length ≤ 5 := by
    split <;> decide
  have hopen : (lit "[").length = 1 := rfl
  have hbetween : (lit "] [").length = 3 := rfl
  have hclose : (lit "]: ").length = 3 := rfl
  simp only [logPrefix, List.length_append, zeroPad_length, hopen, hbetween, hclose]
  omega

/-- The truncation and `vsnprintf` leave room for a terminator. -/
theorem logLine_length (lvl : LogLvl) (mesg : List UInt8) {ms : Nat} (h : ms < 2 ^ 64) :
    (logLine ms lvl mesg).length < maxLogLen := by
  have hmax : maxLogLen = 1024 := rfl
  have hpx := logPrefix_length lvl h
  have hmark : (lit "...[TCD]").length = 8 := rfl
  unfold logLine
  dsimp only
  split <;> simp only [List.length_append, List.length_take] <;> omega

/-- The lines of `dlog` are whole in their buffers. -/
theorem whole_logLine (lvl : LogLvl) (mesg : List UInt8) {ms : Nat} (h : ms < 2 ^ 64) :
    Whole (printbuf (logLine ms lvl mesg)) :=
  whole_printbuf (isLine_logLine ms lvl mesg) (logLine_length lvl mesg h)

/-- The digits in a line are those that `log_transform_ts` writes. -/
def HasEpoch (buf : List UInt8) (now hwnow : Nat) : Prop :=
  (buf.drop 1).take stampLen = stampOf (epochTs buf now hwnow)

/-- A line is left as it is exactly when it has the new digits already. -/
theorem logTransformTs_eq_self_iff {buf : List UInt8} (h : IsLine buf) (now hwnow : Nat) :
    logTransformTs buf now hwnow = buf ↔ HasEpoch buf now hwnow := by
  obtain ⟨stamp, rest, rfl, hlength, hstamp⟩ := h
  have hdigits : ((lit "[" ++ stamp ++ rest).drop 1).take stampLen = stamp :=
    List.take_left' hlength
  rw [logTransformTs_stamp hlength, HasEpoch, hdigits, List.append_cancel_right_eq,
    List.append_cancel_left_eq, eq_comm]

/-- A text that stays the same has its digits as they were. -/
theorem logTransformTs_text_iff {buf : List UInt8} (h : IsLine buf) (now hwnow : Nat) :
    lineText (logTransformTs buf now hwnow) = lineText buf ↔ HasEpoch buf now hwnow := by
  rw [← logTransformTs_eq_self_iff h]
  refine ⟨fun htext ↦ ?_, congrArg lineText⟩
  obtain ⟨stamp, rest, rfl, hlength, hstamp⟩ := h
  rw [logTransformTs_stamp hlength] at htext ⊢
  rw [lineText_line hstamp, lineText_line (zero_notMem_stampOf _),
    List.append_cancel_right_eq] at htext
  rw [htext]

/-- The line keeps its length. -/
theorem Whole.transform {buf : List UInt8} (h : Whole buf) (now hwnow : Nat) :
    Whole (logTransformTs buf now hwnow) := by
  obtain ⟨⟨stamp, rest, rfl, hlength, hstamp⟩, hterm, hshort⟩ := h
  have hrest : 0 ∈ rest := by
    rcases List.mem_append.mp hterm with hfront | hrest
    · exact absurd (List.mem_append.mp hfront) (not_or.mpr ⟨by decide, hstamp⟩)
    · exact hrest
  rw [logTransformTs_stamp hlength]
  refine ⟨⟨_, rest, rfl, stampOf_length _, zero_notMem_stampOf _⟩,
    List.mem_append_right _ hrest, ?_⟩
  rw [lineText_line hstamp, List.length_append, List.length_append, hlength] at hshort
  rw [lineText_line (zero_notMem_stampOf _), List.length_append, List.length_append,
    stampOf_length]
  exact hshort

/-! ## The heap -/

/-- All log buffers hold lines. -/
def Heap.Lines (heap : Heap) : Prop :=
  ∀ buf ∈ heap.bufs, IsLine buf

/-- The heap after `log_transform_ts` on one of its buffers. -/
def Heap.rebase (heap : Heap) (now hwnow : Nat) (id : BufId) : Heap :=
  { heap with bufs := heap.bufs.modify id (logTransformTs · now hwnow) }

variable {heap : Heap} {now hwnow : Nat} {id : BufId}

/-- `log_transform_ts` keeps the buffers full of lines. -/
theorem Heap.Lines.rebase (h : heap.Lines) : (heap.rebase now hwnow id).Lines := by
  intro buf hbuf
  unfold Heap.rebase at hbuf
  obtain ⟨i, hi, rfl⟩ := List.mem_iff_getElem.mp hbuf
  have hlt : i < heap.bufs.length := by simpa using hi
  have hline := h _ (List.getElem_mem hlt)
  rw [List.getElem_modify]
  split
  · exact (logTransformTs_line hline now hwnow).1
  · exact hline

/-- The buffers after `log_transform_ts` on one of them. -/
theorem Heap.rebase_getD (heap : Heap) (now hwnow : Nat) (id i : BufId) :
    (heap.rebase now hwnow id).bufs.getD i [] =
      if i = id then logTransformTs (heap.bufs.getD i []) now hwnow else heap.bufs.getD i [] := by
  have hempty : logTransformTs [] now hwnow = [] := rfl
  unfold Heap.rebase
  by_cases hi : i < heap.bufs.length
  · rw [List.getD_eq_getElem _ _ hi, List.getD_eq_getElem _ _ (by simpa using hi),
      List.getElem_modify]
    simp only [eq_comm]
  · rw [List.getD_eq_default _ _ (by simpa using hi), List.getD_eq_default _ _ (by simpa using hi),
      hempty, ite_self]

/-- `log_transform_ts` keeps the lines whole. -/
theorem whole_rebase {ids : List BufId} (now hwnow : Nat)
    (h : ∀ id ∈ ids, Whole (heap.bufs.getD id [])) (buf : BufId) :
    ∀ id ∈ ids, Whole ((heap.rebase now hwnow buf).bufs.getD id []) := by
  intro id hid
  rw [Heap.rebase_getD]
  split
  · exact (h id hid).transform now hwnow
  · exact h id hid

/-- All the messages stay the same. -/
theorem Heap.Lines.rebase_sameMessage (h : heap.Lines) (i : BufId) :
    SameMessage (lineText ((heap.rebase now hwnow id).bufs.getD i []))
      (lineText (heap.bufs.getD i [])) := by
  rw [Heap.rebase_getD]
  split
  · by_cases hi : i < heap.bufs.length
    · rw [List.getD_eq_getElem _ _ hi]
      exact (logTransformTs_line (h _ (List.getElem_mem hi)) now hwnow).2
    · rw [List.getD_eq_default _ _ (Nat.le_of_not_lt hi)]
      exact .refl _
  · exact .refl _

end DirtieNode.Logger
