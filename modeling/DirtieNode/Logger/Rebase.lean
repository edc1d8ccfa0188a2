import DirtieNode.Logger.Line

/-!
# Rebased times

The digits of a time in a line are a number again when `log_transform_ts` reads them, since they end
at a bracket. The time that it writes is as long before the epoch time of the dump as the old one
was before the boot time of the dump.
-/

namespace DirtieNode.Logger

open CString

/-- What `dlog` writes in front of the level. -/
def lineHead (ts : Nat) : List UInt8 :=
  lit "[" ++ zeroPad stampLen (decimal ts) ++ lit "]"

/-- The line is one that `dlog` has stored at a boot time. -/
def LoggedAt (ts : Nat) (line : List UInt8) : Prop :=
  ∃ lvl mesg logs, (dlog { ms := ts } lvl mesg logs).1 = .ok ∧
    (dlog { ms := ts } lvl mesg logs).2.heap.bufs = logs.heap.bufs ++ [line]

/-- The time in a line, as `log_transform_ts` reads it. -/
def lineTime (line : List UInt8) : Nat :=
  strtoull (line.drop 1)

/-- A line with the time `ts`, and what `log_transform_ts` makes of it when `epoch` is the same time
in the other count: the digits are exchanged, and no other byte. -/
structure Rebased (line line' : List UInt8) (ts epoch : Nat) : Prop where
  digits : ∃ rest, line = lit "[" ++ zeroPad stampLen (decimal ts) ++ rest ∧
    line' = lit "[" ++ zeroPad stampLen (decimal epoch) ++ rest
  width : (zeroPad stampLen (decimal ts)).length = stampLen
  width' : (zeroPad stampLen (decimal epoch)).length = stampLen
  size : line'.length = line.length
  text : (lineText line').length = (lineText line).length

/-- A line of this time in a dump: it is not from the future, the epoch has begun before it, and
both times fit into the digits of a line. -/
structure InDump (ts now hwnow : Nat) : Prop where
  short : ts < 10 ^ stampLen
  past : ts ≤ hwnow
  epoch : hwnow - ts ≤ now
  nowShort : now < 10 ^ stampLen

/-- The epoch time of a line in a dump. -/
def rebasedTime (ts now hwnow : Nat) : Nat :=
  now - (hwnow - ts)

/-! ## Lines of a time -/

/-- A line that `dlog` has stored is its prefix and message, in a buffer. -/
theorem LoggedAt.eq_printbuf {ts : Nat} {line : List UInt8} (h : LoggedAt ts line) :
    ∃ lvl mesg, line = printbuf (logLine ts lvl mesg) := by
  obtain ⟨lvl, mesg, logs, -, hbufs⟩ := h
  rw [dlog_bufs rfl, List.append_cancel_left_eq, List.cons.injEq] at hbufs
  exact ⟨lvl, mesg, hbufs.1.symm⟩

/-- Every level and message gives a line that `dlog` stores. -/
theorem loggedAt_printbuf (ts : Nat) (lvl : LogLvl) (mesg : List UInt8) :
    LoggedAt ts (printbuf (logLine ts lvl mesg)) :=
  ⟨lvl, mesg, {}, rfl, dlog_bufs rfl lvl mesg {}⟩

/-- A time of at most 13 digits. -/
theorem width_of_short {ts : Nat} (h : ts < 10 ^ stampLen) :
    (zeroPad stampLen (decimal ts)).length = stampLen :=
  zeroPad_decimal_length (by decide) h

/-- A time of 13 digits fits 64 bits. -/
theorem lt_of_short {ts : Nat} (h : ts < 10 ^ stampLen) : ts < 2 ^ 63 :=
  h.trans (by decide)

/-- A time of 13 digits is written out with all of its digits. -/
theorem stampOf_of_short {ts : Nat} (h : ts < 10 ^ stampLen) :
    stampOf ts = zeroPad stampLen (decimal ts) :=
  List.take_of_length_le (Nat.le_of_eq (width_of_short h))

/-- The truncation mark is behind the time. -/
theorem lineHead_prefix_logLine {ts : Nat} (h : ts < 10 ^ stampLen) (lvl : LogLvl)
    (mesg : List UInt8) : lineHead ts <+: logLine ts lvl mesg := by
  have hlength : (lineHead ts).length = 1 + stampLen + 1 := by
    rw [lineHead, List.length_append, bracket_stamp_length (width_of_short h)]
    rfl
  have hpx : lineHead ts <+: logPrefix ts lvl := by
    refine ⟨lit " [" ++ (if lvl = .info then lit "INFO" else lit "ERROR") ++ lit "]: ", ?_⟩
    rw [logPrefix, show lit "] [" = lit "]" ++ lit " [" from rfl, lineHead, stampLen]
    simp only [List.append_assoc]
  have hline := hpx.trans (List.prefix_append (logPrefix ts lvl)
    (mesg.take (maxLogLen - (logPrefix ts lvl).length - 1)))
  unfold logLine
  dsimp only
  split
  · have hcut : lineHead ts <+: (logPrefix ts lvl ++
        mesg.take (maxLogLen - (logPrefix ts lvl).length - 1)).take
          (maxLogLen - (lit "...[TCD]").length - 1) :=
      List.prefix_take_iff.mpr ⟨hline, by rw [hlength]; decide⟩
    exact hcut.trans (List.prefix_append _ _)
  · exact hline

/-- A stored line starts with its time. -/
theorem LoggedAt.head {ts : Nat} (h : ts < 10 ^ stampLen) {line : List UInt8}
    (hline : LoggedAt ts line) : lineHead ts <+: line := by
  obtain ⟨lvl, mesg, rfl⟩ := hline.eq_printbuf
  exact (lineHead_prefix_logLine h lvl mesg).trans (List.prefix_append _ _)

/-- The time is read as it was printed: `strtoull` stops at the bracket behind it. -/
theorem lineTime_of_head {ts : Nat} (h : ts < 10 ^ stampLen) {line : List UInt8}
    (hhead : lineHead ts <+: line) : lineTime line = ts := by
  obtain ⟨rest, rfl⟩ := hhead
  have hbracket : digit? 93 = none := by decide
  have hsplit : (lineHead ts ++ rest).drop 1 = zeroPad stampLen (decimal ts) ++ 93 :: rest := by
    rw [lineHead, List.append_assoc, List.append_assoc]
    rfl
  have hfits := lt_of_short h
  rw [lineTime, hsplit, strtoull_zeroPad (by omega) stampLen hbracket]

/-! ## `log_transform_ts` on a line of a time -/

/-- Neither of the subtractions wraps. -/
theorem epochTs_of_head {ts now hwnow : Nat} (h : InDump ts now hwnow) {line : List UInt8}
    (hhead : lineHead ts <+: line) : epochTs line now hwnow = rebasedTime ts now hwnow := by
  have hread : strtoull (line.drop 1) = ts := lineTime_of_head h.short hhead
  have hfits := lt_of_short h.short
  have hnow := lt_of_short h.nowShort
  have hpast := h.past
  have hepoch := h.epoch
  have hdelta : (hwnow + 2 ^ 64 - ts) % 2 ^ 64 = hwnow - ts := by omega
  rw [epochTs, hread, hdelta, rebasedTime]
  omega

/-- The time of a dump has 13 digits. -/
theorem InDump.rebasedTime_short {ts now hwnow : Nat} (h : InDump ts now hwnow) :
    rebasedTime ts now hwnow < 10 ^ stampLen :=
  Nat.lt_of_le_of_lt (Nat.sub_le _ _) h.nowShort

/-- The line of the epoch time has the same bytes behind its digits. -/
theorem logTransformTs_of_head {ts now hwnow : Nat} (h : InDump ts now hwnow) {line : List UInt8}
    (hhead : lineHead ts <+: line) : ∃ rest, line = lineHead ts ++ rest ∧
      logTransformTs line now hwnow = lineHead (rebasedTime ts now hwnow) ++ rest := by
  have hepoch := epochTs_of_head h hhead
  obtain ⟨rest, rfl⟩ := hhead
  refine ⟨rest, rfl, ?_⟩
  have hsplit : ∀ t, lineHead t ++ rest =
      lit "[" ++ zeroPad stampLen (decimal t) ++ (lit "]" ++ rest) := by
    intro t
    rw [lineHead]
    simp only [List.append_assoc]
  rw [hsplit] at hepoch
  rw [hsplit, hsplit, logTransformTs_stamp (width_of_short h.short), hepoch,
    stampOf_of_short h.rebasedTime_short]

/-- `log_transform_ts` exchanges the time of a stored line, and nothing else. -/
theorem LoggedAt.rebased {ts now hwnow : Nat} (h : InDump ts now hwnow) {line : List UInt8}
    (hline : LoggedAt ts line) :
    Rebased line (logTransformTs line now hwnow) ts (rebasedTime ts now hwnow) := by
  have hwidth := width_of_short h.short
  have hwidth' := width_of_short h.rebasedTime_short
  obtain ⟨rest, hold, hnew⟩ := logTransformTs_of_head h (hline.head h.short)
  rw [lineHead, List.append_assoc] at hold hnew
  refine ⟨⟨_, hold, hnew⟩, hwidth, hwidth', ?_, ?_⟩
  · rw [hnew, hold]
    simp only [List.length_append, hwidth, hwidth']
  · rw [hnew, hold, lineText_line (zero_notMem_zeroPad stampLen ts),
      lineText_line (zero_notMem_zeroPad stampLen _)]
    simp only [List.length_append, hwidth, hwidth']

/-- The time that a rebased line shows. -/
theorem LoggedAt.lineTime_rebased {ts now hwnow : Nat} (h : InDump ts now hwnow)
    {line : List UInt8} (hline : LoggedAt ts line) :
    lineTime (logTransformTs line now hwnow) = rebasedTime ts now hwnow := by
  obtain ⟨rest, -, hnew⟩ := logTransformTs_of_head h (hline.head h.short)
  exact lineTime_of_head h.rebasedTime_short ⟨rest, hnew.symm⟩

/-- A line is rebased exactly, whatever its message is, and two lines of a dump keep the order and
the difference of their times. -/
theorem times_rebased {now hwnow ts ts' : Nat} (h : InDump ts now hwnow)
    (h' : InDump ts' now hwnow) {line line' : List UInt8} (hline : LoggedAt ts line)
    (hline' : LoggedAt ts' line') :
    Rebased line (logTransformTs line now hwnow) ts (now - (hwnow - ts)) ∧
      Rebased line' (logTransformTs line' now hwnow) ts' (now - (hwnow - ts')) ∧
      (lineTime (logTransformTs line now hwnow) ≤ lineTime (logTransformTs line' now hwnow) ↔
        ts ≤ ts') ∧
      (lineTime (logTransformTs line' now hwnow) : Int) - lineTime (logTransformTs line now hwnow) =
        (ts' : Int) - ts := by
  have htime := hline.lineTime_rebased h
  have htime' := hline'.lineTime_rebased h'
  have hpast := h.past
  have hpast' := h'.past
  have hepoch := h.epoch
  have hepoch' := h'.epoch
  refine ⟨hline.rebased h, hline'.rebased h', ?_, ?_⟩
  · rw [htime, htime', rebasedTime, rebasedTime]
    omega
  · rw [htime, htime', rebasedTime, rebasedTime]
    omega

/-- Two lines of a minute, one of them with brackets and digits in its message. -/
theorem times_rebased_minute :
    Rebased (printbuf (logLine 1234 .info (lit "started")))
        (logTransformTs (printbuf (logLine 1234 .info (lit "started"))) 1700000000000 60000)
        1234 1699999941234 ∧
      lineTime (logTransformTs (printbuf (logLine 59999 .err (lit "[7] 42]"))) 1700000000000
          60000) -
        lineTime (logTransformTs (printbuf (logLine 1234 .info (lit "started"))) 1700000000000
          60000) = 58765 := by
  have hdump : InDump 1234 1700000000000 60000 := ⟨by decide, by omega, by omega, by decide⟩
  have hdump' : InDump 59999 1700000000000 60000 := ⟨by decide, by omega, by omega, by decide⟩
  obtain ⟨hfirst, -, -, hdistance⟩ := times_rebased hdump hdump'
    (loggedAt_printbuf 1234 .info (lit "started")) (loggedAt_printbuf 59999 .err (lit "[7] 42]"))
  refine ⟨hfirst, ?_⟩
  omega

end DirtieNode.Logger
