import DirtieNode.DtErr
import DirtieNode.Library.Format

/-!
# The logger

`logger.c` on the 16 slots of `ctx->logdump` and the heap blocks they point to. A block is known by
its number, and the calls of `free` on log blocks are recorded in order.
-/

namespace DirtieNode.Logger

open CString

/-- `MAX_LOG_LEN`. -/
def maxLogLen : Nat := 1024

/-- The number of slots of `ctx->logdump`. -/
def maxLogEntries : Nat := 16

/-- `LOG_LVL_E`. -/
inductive LogLvl where
  | info
  | err
  deriving DecidableEq, Repr

/-- A log buffer on the heap. -/
abbrev BufId := Nat

/-- The log buffers in the order of their allocation, and those passed to `free`, in order. -/
structure Heap where
  bufs : List (List UInt8) := []
  frees : List BufId := []

def Heap.alloc (heap : Heap) (buf : List UInt8) : BufId × Heap :=
  (heap.bufs.length, { heap with bufs := heap.bufs ++ [buf] })

/-- `free`, which does nothing with a null pointer. -/
def Heap.free (heap : Heap) (ptr : Option BufId) : Heap :=
  { heap with frees := heap.frees ++ ptr.toList }

/-- `ctx->dump_logs` and `ctx->logdump`, with the heap that the slots point into. -/
structure Logs where
  dumpLogs : Bool := false
  logdump : List (Option BufId) := List.replicate maxLogEntries none
  heap : Heap := {}

/-- What the calls in `dlog` return: whether `calloc` succeeds, and the time. -/
structure LogEnv where
  mallocOk : Bool := true
  ms : Nat := 0

/-- The prefix of a line. -/
def logPrefix (ms : Nat) (lvl : LogLvl) : List UInt8 :=
  lit "[" ++ zeroPad 13 (decimal ms) ++ lit "] [" ++
    (if lvl = .info then lit "INFO" else lit "ERROR") ++ lit "]: "

/-- The line in `printbuf`. `vsnprintf` leaves room for a terminator, and the mark replaces the end
of a message that needs more than the space behind the prefix. -/
def logLine (ms : Nat) (lvl : LogLvl) (mesg : List UInt8) : List UInt8 :=
  let px := logPrefix ms lvl
  let remaining := maxLogLen - px.length
  let line := px ++ mesg.take (remaining - 1)
  let truncmark := lit "...[TCD]"
  if remaining < mesg.length then line.take (maxLogLen - truncmark.length - 1) ++ truncmark
  else line

/-- The zeroed block with a line in it. -/
def printbuf (line : List UInt8) : List UInt8 :=
  line ++ List.replicate (maxLogLen - line.length) 0

/-- The loop of `dlog` from slot `i` on: the slots with the buffer in the first free one, or `none`
when there is none, and whether it sets `dump_logs`. -/
def storeLog (buf : BufId) : Nat → List (Option BufId) → Option (List (Option BufId)) × Bool
  | _, [] => (none, false)
  | _, none :: rest => (some (some buf :: rest), false)
  | i, some other :: rest =>
      let (slots, flag) := storeLog buf (i + 1) rest
      (slots.map (some other :: ·), decide (maxLogEntries / 2 ≤ i) || flag)

/-- `dlog`, with its message already formatted. -/
def dlog (env : LogEnv) (lvl : LogLvl) (mesg : List UInt8) (logs : Logs) : DtErr × Logs :=
  if !env.mallocOk then (.malloc, logs)
  else
    let (buf, heap) := logs.heap.alloc (printbuf (logLine env.ms lvl mesg))
    let (slots, flag) := storeLog buf 0 logs.logdump
    match slots with
    | some slots => (.ok, ⟨logs.dumpLogs || flag, slots, heap⟩)
    | none => (.tooManyLogs, ⟨logs.dumpLogs || flag, logs.logdump, heap.free (some buf)⟩)

/-- `free_logs`, which leaves the pointers in the slots. -/
def freeLogs (logs : Logs) : Logs :=
  { logs with heap := logs.logdump.foldl Heap.free logs.heap }

/-- `log_transform_ts` on a log buffer, in 64-bit arithmetic. The buffer of a line has room for the
13 digits behind its first bracket. -/
def logTransformTs (msg : List UInt8) (now hwnow : Nat) : List UInt8 :=
  match strchr msg 91 with
  | none | some none => msg
  | some (some start) =>
      let tsStart := start + 1
      let ts := strtoull (msg.drop tsStart)
      let delta := (hwnow + 2 ^ 64 - ts) % 2 ^ 64
      let epochts := (now + 2 ^ 64 - delta) % 2 ^ 64
      let buf := (zeroPad 13 (decimal epochts)).take 13
      msg.take tsStart ++ buf ++ msg.drop (tsStart + 13)

/-- The loop of `dlog` sets the flag when it passes the slot in the middle. -/
theorem storeLog_flag (buf : BufId) (i : Nat) (slots : List (Option BufId)) :
    (storeLog buf i slots).2 = true ↔
      0 < (slots.takeWhile Option.isSome).length ∧
        maxLogEntries / 2 < i + (slots.takeWhile Option.isSome).length := by
  induction slots generalizing i with
  | nil => simp [storeLog]
  | cons slot rest ih =>
      cases slot with
      | none => simp [storeLog]
      | some other =>
          simp only [storeLog, Bool.or_eq_true, decide_eq_true_eq, ih, List.takeWhile_cons,
            Option.isSome_some, if_true, List.length_cons]
          omega

/-- `dlog` asks for a dump when more than half of the slots are taken from the front on. -/
theorem dlog_flag (env : LogEnv) (lvl : LogLvl) (mesg : List UInt8) (logs : Logs) :
    (dlog env lvl mesg logs).2.dumpLogs = true ↔
      logs.dumpLogs = true ∨ env.mallocOk = true ∧
        maxLogEntries / 2 < (logs.logdump.takeWhile Option.isSome).length := by
  unfold dlog
  cases env.mallocOk with
  | false => simp
  | true =>
      have hflag : (storeLog logs.heap.bufs.length 0 logs.logdump).2 = true ↔
          maxLogEntries / 2 < (logs.logdump.takeWhile Option.isSome).length := by
        rw [storeLog_flag, Nat.zero_add]
        exact and_iff_right_of_imp Nat.zero_lt_of_lt
      simp only [Bool.not_true, Bool.false_eq_true, if_false, Heap.alloc]
      split <;> simp only [Bool.or_eq_true, hflag, true_and]

/-! ## The slots -/

/-- The slots hold these buffers, in front of the free ones. -/
def slotsOf (ids : List BufId) : List (Option BufId) :=
  ids.map some ++ List.replicate (maxLogEntries - ids.length) none

end DirtieNode.Logger
