import DirtieNode.Connect.LogArray
import DirtieNode.Library.Json
import DirtieNode.Logger.Slots

/-!
# The buffer of the array

The loop of `logdump` on the bytes of `logarray`, with the running position, where `b64_encode`
writes without a size. `writeLogarray_refines` says that it stays inside the buffer and writes the
text of `logArray`, and `logs_lossless` that this text is a JSON array of the logs in base64.
-/

namespace DirtieNode.Connect

open CString Logger State

/-- `logarrsize`. -/
def logarrsize : Nat :=
  let maxBase64LogLen := (maxLogLen + 2) / 3 * 4 + 1
  let jsonChars := maxLogEntries * 4 + (maxLogEntries - 1) + 2
  maxBase64LogLen * maxLogEntries + jsonChars

/-- The bytes of `logarray`, and `pos`. -/
structure Cursor where
  logarray : List UInt8
  pos : Nat

/-- `pos += snprintf(logarray + pos, logarrsize - pos, text)`, without conversions in the text. The
size is converted to `size_t`. -/
def Cursor.print (cursor : Cursor) (text : List UInt8) : Option Cursor :=
  let size := sizeT ((logarrsize : Int) - cursor.pos)
  let written := if size = 0 then [] else text.take (size - 1) ++ [0]
  (memcpy cursor.logarray cursor.pos written).map fun mem ↦ ⟨mem, cursor.pos + text.length⟩

/-- `b64_encode(logarray + pos, src, strlen(src))`, whose `strcpy` knows no size, and then
`pos += strlen(logarray + pos)`. -/
def Cursor.encode (cursor : Cursor) (src : List UInt8) : Option Cursor := do
  let mem ← memcpy cursor.logarray cursor.pos (b64Encode src ++ [0])
  let len ← strlen (mem.drop cursor.pos)
  pure ⟨mem, cursor.pos + len⟩

/-- The loop of `logdump` from slot `i` on. There is no result when it leaves an object. -/
def writeLogs (env : Env) (now hwnow : Nat) :
    Nat → List (Option BufId) → Heap → Cursor → Option (DtErr × Heap × Cursor)
  | _, [], heap, cursor => some (.ok, heap, cursor)
  | _, none :: _, heap, cursor => some (.ok, heap, cursor)
  | i, some buf :: rest, heap, cursor => do
      let heap := heap.rebase now hwnow buf
      let cursor ← (if i > 0 then cursor.print (lit ",") else some cursor)
      let cursor ← cursor.print (lit "\"")
      let src ← get (heap.bufs.getD buf [])
      if !env.b64 i then pure (.malloc, heap, cursor)
      else
        let cursor ← cursor.encode src
        let cursor ← cursor.print (lit "\"")
        writeLogs env now hwnow (i + 1) rest heap cursor

/-- `logdump` from the `calloc` of `logarray` to the end of the array. -/
def writeLogarray (env : Env) (now hwnow : Nat) (slots : List (Option BufId)) (heap : Heap) :
    Option (DtErr × Heap × Cursor) := do
  let cursor ← Cursor.print ⟨List.replicate logarrsize 0, 0⟩ (lit "[")
  let (err, heap, cursor) ← writeLogs env now hwnow 0 slots heap cursor
  if err ≠ .ok then pure (err, heap, cursor)
  else
    let cursor ← cursor.print (lit "]")
    pure (err, heap, cursor)

/-! ## The position -/

/-- The buffer with a text in it, and the position behind the text. -/
def Cursor.behind (text : List UInt8) : Cursor :=
  ⟨text ++ List.replicate (logarrsize - text.length) 0, text.length⟩

section Position

variable (text more : List UInt8)

/-- A string behind the text makes a longer text. -/
theorem memcpy_behind (h : text.length + more.length < logarrsize) :
    memcpy (Cursor.behind text).logarray text.length (more ++ [0]) =
      some (Cursor.behind (text ++ more)).logarray := by
  have hroom : (more ++ [0]).length ≤ logarrsize - text.length := by
    rw [List.length_append, List.length_singleton]
    omega
  have hzeros : (0 : UInt8) :: List.replicate (logarrsize - text.length - (more.length + 1)) 0 =
      List.replicate (logarrsize - (text.length + more.length)) 0 := by
    rw [← List.replicate_succ]
    congr 1
    omega
  rw [Cursor.behind, Cursor.behind, memcpy_replicate _ _ _ _ hroom]
  simp only [List.length_append, List.length_singleton, List.append_assoc, List.singleton_append,
    hzeros]

/-- `snprintf` puts a short text behind the one that is there. -/
theorem print_behind (h : text.length + more.length < logarrsize) :
    (Cursor.behind text).print more = some (Cursor.behind (text ++ more)) := by
  have hpos : (Cursor.behind text).pos = text.length := rfl
  have hvalue : logarrsize = 21985 := rfl
  have hsize : sizeT ((logarrsize : Int) - text.length) = logarrsize - text.length := by
    unfold sizeT
    omega
  have hnonzero : logarrsize - text.length ≠ 0 := by omega
  have hwhole : more.take (logarrsize - text.length - 1) = more :=
    List.take_of_length_le (by omega)
  unfold Cursor.print
  simp only [hpos, hsize, hnonzero, if_false, hwhole, memcpy_behind _ _ h, Option.map_some]
  rw [Cursor.behind, List.length_append]

/-- `strlen` finds the end of what `b64_encode` has written. -/
theorem encode_behind (src : List UInt8) (h : text.length + (b64Encode src).length < logarrsize)
    (hnul : 0 ∉ b64Encode src) :
    (Cursor.behind text).encode src = some (Cursor.behind (text ++ b64Encode src)) := by
  have hpos : (Cursor.behind text).pos = text.length := rfl
  have hdrop : (Cursor.behind (text ++ b64Encode src)).logarray.drop text.length =
      b64Encode src ++ List.replicate (logarrsize - (text ++ b64Encode src).length) 0 := by
    rw [Cursor.behind, List.append_assoc, List.drop_left]
  have hroom : (text ++ b64Encode src).length < logarrsize := by rwa [List.length_append]
  have hstrlen := strlen_holds (holds_replicate _ hnul (Nat.sub_pos_of_lt hroom))
  simp only [Cursor.encode, hpos, memcpy_behind _ _ h, Option.bind_eq_bind, Option.bind_some, hdrop,
    hstrlen, Option.pure_def]
  rw [Cursor.behind, List.length_append]

end Position

/-! ## The loop -/

/-- Base64 has nothing that JSON would escape. -/
theorem b64Encode_plain (src : List UInt8) : ∀ c ∈ b64Encode src, JsonText.Plain c := by
  have hvalue : ∀ c : UInt8, (Base64.value c).isSome = true → JsonText.Plain c :=
    forall_byte (by decide +kernel)
  intro c hc
  rcases mem_b64Encode hc with ⟨n, hn⟩ | rfl
  · exact hvalue c (by rw [hn]; rfl)
  · decide

/-- Base64 has no terminator. -/
theorem zero_notMem_b64Encode (src : List UInt8) : 0 ∉ b64Encode src := fun hmem ↦
  (b64Encode_plain src 0 hmem).2.2 (by decide)

/-- An upper bound on what a log adds to the array. -/
def roundSize : Nat := 1367

section Loop

variable {env : Env} {now hwnow i free : Nat} {heap : Heap} {ids : List BufId}
  {text : List UInt8}

/-- The string in a log buffer is its line. -/
theorem get_logText {buf : BufId} (h : Whole (heap.bufs.getD buf [])) :
    get (heap.bufs.getD buf []) = some (logText heap buf) :=
  get_holds (holds_takeWhile h.terminated)

/-- A comma and a quote are in front of an encoding. -/
theorem logOpen_length (i : Nat) (text : List UInt8) :
    (logOpen i text).length ≤ text.length + 2 := by
  have hcomma : (lit ",").length = 1 := rfl
  have hquote : (lit "\"").length = 1 := rfl
  unfold logOpen
  split <;> simp only [List.length_append, hcomma, hquote] <;> omega

/-- A log adds no more than its bound to the array. -/
theorem round_length (i : Nat) (text : List UInt8) {buf : BufId}
    (h : Whole (heap.bufs.getD buf [])) :
    (logOpen i text).length + (b64Encode (logText heap buf)).length + (lit "\"").length ≤
      text.length + roundSize := by
  have hopen := logOpen_length i text
  have hshort : (logText heap buf).length < maxLogLen := h.short
  have hmax : maxLogLen = 1024 := rfl
  have hquote : (lit "\"").length = 1 := rfl
  rw [b64Encode_length, hquote, roundSize]
  omega

/-- One round stays in the buffer, when there is room for it. -/
theorem writeLogs_cons {buf : BufId} (slots : List (Option BufId))
    (hwhole : Whole ((heap.rebase now hwnow buf).bufs.getD buf []))
    (hroom : text.length + roundSize < logarrsize) :
    writeLogs env now hwnow i (some buf :: slots) heap (.behind text) =
      if env.b64 i = false then
        some (.malloc, heap.rebase now hwnow buf, .behind (logOpen i text))
      else writeLogs env now hwnow (i + 1) slots (heap.rebase now hwnow buf)
        (.behind (logOpen i text ++ b64Encode (logText (heap.rebase now hwnow buf) buf) ++
          lit "\"")) := by
  have hround := round_length i text hwhole
  have hcomma : (if i > 0 then (Cursor.behind text).print (lit ",") else some (.behind text)) =
      some (.behind (if i > 0 then text ++ lit "," else text)) := by
    split
    · exact print_behind _ _ (Nat.lt_of_le_of_lt (Nat.add_le_add_left (by decide) _) hroom)
    · rfl
  have hquote : (Cursor.behind (if i > 0 then text ++ lit "," else text)).print (lit "\"") =
      some (.behind (logOpen i text)) := by
    have hopen : (logOpen i text).length = _ := List.length_append
    exact print_behind _ _ (by omega)
  have hencode := encode_behind (logOpen i text) (logText (heap.rebase now hwnow buf) buf)
    (by omega) (zero_notMem_b64Encode _)
  have hclose := print_behind
    (logOpen i text ++ b64Encode (logText (heap.rebase now hwnow buf) buf)) (lit "\"")
    (by rw [List.length_append]; omega)
  simp only [writeLogs, Option.bind_eq_bind, hcomma, Option.bind_some, hquote, get_logText hwhole]
  cases env.b64 i with
  | false => rfl
  | true =>
      simp only [Bool.not_true, Bool.false_eq_true, if_false, hencode, Option.bind_some, hclose]
      rfl

/-- The loop on the bytes writes the text of `logArray`. -/
theorem writeLogs_refines (env : Env) (now hwnow i free : Nat) {heap : Heap} {ids : List BufId}
    (text : List UInt8) (hwhole : ∀ id ∈ ids, Whole (heap.bufs.getD id []))
    (hroom : text.length + ids.length * roundSize < logarrsize) :
    let result := logArray env now hwnow i (ids.map some ++ List.replicate free none) heap text
    writeLogs env now hwnow i (ids.map some ++ List.replicate free none) heap (.behind text) =
        some (result.1, result.2.1, .behind result.2.2) ∧
      result.2.2.length ≤ text.length + ids.length * roundSize := by
  induction ids generalizing i heap text with
  | nil => cases free <;> simp [List.replicate_succ, writeLogs, logArray]
  | cons buf ids ih =>
      rw [List.length_cons, Nat.succ_mul] at hroom ⊢
      have hrebased := whole_rebase now hwnow hwhole buf
      have hbuf := hrebased buf List.mem_cons_self
      have hround := round_length i text hbuf
      rw [← List.length_append, ← List.length_append] at hround
      rw [List.map_cons, List.cons_append, writeLogs_cons _ hbuf (by omega), logArray_cons]
      split
      · have hopen := logOpen_length i text
        refine ⟨rfl, ?_⟩
        dsimp only
        rw [roundSize]
        omega
      · obtain ⟨hrun, hlen⟩ := ih (i + 1)
          (logOpen i text ++ b64Encode (logText (heap.rebase now hwnow buf) buf) ++ lit "\"")
          (fun id hid ↦ hrebased id (List.mem_cons_of_mem _ hid)) (by omega)
        exact ⟨hrun, by omega⟩

end Loop

/-! ## The array of the logs -/

/-- A log after `log_transform_ts`. -/
def rebasedLog (heap : Heap) (now hwnow : Nat) (buf : BufId) : List UInt8 :=
  lineText (logTransformTs (heap.bufs.getD buf []) now hwnow)

/-- The element of the array for a log. -/
def logElement (heap : Heap) (now hwnow : Nat) (buf : BufId) : List UInt8 :=
  JsonText.inQuotes (b64Encode (rebasedLog heap now hwnow buf))

section Text

variable {env : Env} {now hwnow i free : Nat} {heap : Heap} {ids : List BufId}
  {text : List UInt8}

/-- The line in a buffer after `log_transform_ts`. -/
theorem logText_rebase (buf : BufId) :
    logText (heap.rebase now hwnow buf) buf = rebasedLog heap now hwnow buf := by
  rw [logText, Heap.rebase_getD, if_pos rfl]
  rfl

/-- `log_transform_ts` on one buffer keeps the elements of the others. -/
theorem logElement_rebase {buf id : BufId} (h : id ≠ buf) :
    logElement (heap.rebase now hwnow buf) now hwnow id = logElement heap now hwnow id := by
  rw [logElement, logElement, rebasedLog, rebasedLog, Heap.rebase_getD, if_neg h]

/-- `log_transform_ts` on one buffer keeps the elements of a list without it. -/
theorem logElements_rebase {buf : BufId} (h : buf ∉ ids) :
    ids.map (logElement (heap.rebase now hwnow buf) now hwnow) =
      ids.map (logElement heap now hwnow) :=
  List.map_congr_left fun _ hid ↦ logElement_rebase fun heq ↦ h (heq ▸ hid)

/-- One round of the loop adds a comma, if need be, and one element. -/
theorem logOpen_element (buf : BufId) :
    logOpen i text ++ b64Encode (logText (heap.rebase now hwnow buf) buf) ++ lit "\"" =
      (if i > 0 then text ++ lit "," else text) ++ logElement heap now hwnow buf := by
  have hquote : lit "\"" = [JsonText.quote] := rfl
  rw [logText_rebase, logOpen, logElement, JsonText.inQuotes, hquote]
  simp only [List.append_assoc, List.cons_append, List.nil_append]

/-- Behind the first log, the loop adds a comma and an element for each. -/
theorem logArray_rest (text : List UInt8) (hnodup : ids.Nodup)
    (hok : ∀ j < ids.length, env.b64 (i + j) = true) (hi : 0 < i) :
    (logArray env now hwnow i (ids.map some ++ List.replicate free none) heap text).2.2 =
      text ++ ((ids.map (logElement heap now hwnow)).map (JsonText.comma :: ·)).flatten := by
  induction ids generalizing i heap text with
  | nil => cases free <;> simp [List.replicate_succ, logArray]
  | cons buf ids ih =>
      obtain ⟨hfresh, hrest⟩ := List.nodup_cons.mp hnodup
      have hfirst : env.b64 i = true := hok 0 (by simp)
      have hcomma : lit "," = [JsonText.comma] := rfl
      rw [List.map_cons, List.cons_append, logArray_cons, if_neg (by simp [hfirst]),
        logOpen_element, if_pos hi, ih _ hrest (fun j hj ↦ ?_) (Nat.succ_pos i),
        logElements_rebase hfresh, hcomma]
      · simp only [List.map_cons, List.flatten_cons, List.append_assoc, List.cons_append,
          List.nil_append]
      · have hlater := hok (j + 1) (by simpa using hj)
        rwa [Nat.succ_add_eq_add_succ]

/-- The loop writes the elements with commas between them. -/
theorem logArray_text (now hwnow free : Nat) (heap : Heap) (text : List UInt8) (hnodup : ids.Nodup)
    (hok : ∀ j < ids.length, env.b64 j = true) :
    (logArray env now hwnow 0 (ids.map some ++ List.replicate free none) heap text).2.2 =
      text ++ JsonText.separated (ids.map (logElement heap now hwnow)) := by
  cases ids with
  | nil => cases free <;> simp [List.replicate_succ, logArray]
  | cons buf ids =>
      obtain ⟨hfresh, hrest⟩ := List.nodup_cons.mp hnodup
      have hfirst : env.b64 0 = true := hok 0 (by simp)
      rw [List.map_cons, List.cons_append, logArray_cons, if_neg (by simp [hfirst]),
        logOpen_element, if_neg (Nat.lt_irrefl 0),
        logArray_rest _ hrest (fun j hj ↦ ?_) Nat.one_pos, logElements_rebase hfresh,
        List.map_cons, JsonText.separated_eq_flatten, List.append_assoc]
      · have hlater := hok (j + 1) (by simpa using hj)
        rwa [Nat.add_comm]

/-- The array is read as the encodings of the logs. -/
theorem array_logElements (heap : Heap) (now hwnow : Nat) (ids : List BufId) :
    JsonText.array (lit "[" ++ JsonText.separated (ids.map (logElement heap now hwnow)) ++
        lit "]") =
      some (ids.map fun id ↦ b64Encode (rebasedLog heap now hwnow id)) := by
  have hplain : ∀ text ∈ ids.map fun id ↦ b64Encode (rebasedLog heap now hwnow id),
      ∀ b ∈ text, JsonText.Plain b := by
    intro text htext
    obtain ⟨id, _, rfl⟩ := List.mem_map.mp htext
    exact b64Encode_plain _
  have hread := JsonText.array_arrayText hplain
  rw [List.map_map] at hread
  exact hread

/-- The array has no terminator. -/
theorem zero_notMem_logElements (heap : Heap) (now hwnow : Nat) (ids : List BufId) :
    0 ∉ lit "[" ++ JsonText.separated (ids.map (logElement heap now hwnow)) ++ lit "]" := by
  have hopen : (0 : UInt8) ∉ lit "[" := by decide
  have hclose : (0 : UInt8) ∉ lit "]" := by decide
  have hquote : (0 : UInt8) ≠ JsonText.quote := by decide
  simp only [List.mem_append, not_or]
  refine ⟨⟨hopen, fun hmem ↦ ?_⟩, hclose⟩
  rcases JsonText.mem_separated hmem with hcomma | ⟨text, htext, hzero⟩
  · exact absurd hcomma (by decide)
  · obtain ⟨id, _, rfl⟩ := List.mem_map.mp htext
    rw [logElement, JsonText.inQuotes, List.mem_cons, List.mem_append, List.mem_singleton] at hzero
    rcases hzero with hzero | hzero | hzero
    · exact hquote hzero
    · exact zero_notMem_b64Encode _ hzero
    · exact hquote hzero

end Text

/-- The buffer keeps its size. -/
theorem behind_length {text : List UInt8} (h : text.length ≤ logarrsize) :
    (Cursor.behind text).logarray.length = logarrsize := by
  rw [Cursor.behind, List.length_append, List.length_replicate]
  omega

/-- A string in the buffer. -/
theorem get_behind {text : List UInt8} (hnul : 0 ∉ text) (hlen : text.length < logarrsize) :
    get (Cursor.behind text).logarray = some text :=
  get_holds (holds_replicate _ hnul (Nat.sub_pos_of_lt hlen))

/-- `logdump` builds the text of `logArray` inside the buffer, whatever the lines in it are. -/
theorem writeLogarray_refines (env : Env) (now hwnow : Nat) {heap : Heap} {ids : List BufId}
    (hroom : ids.length ≤ maxLogEntries) (hwhole : ∀ id ∈ ids, Whole (heap.bufs.getD id [])) :
    let result := logArray env now hwnow 0 (slotsOf ids) heap (lit "[")
    writeLogarray env now hwnow (slotsOf ids) heap =
        some (result.1, result.2.1,
          .behind (if result.1 = .ok then result.2.2 ++ lit "]" else result.2.2)) ∧
      (result.2.2 ++ lit "]").length < logarrsize := by
  have hopen : (lit "[").length = 1 := rfl
  have hclose : (lit "]").length = 1 := rfl
  have hvalue : logarrsize = 21985 := rfl
  have hmax : maxLogEntries = 16 := rfl
  have hmany : ids.length * roundSize ≤ 16 * 1367 := Nat.mul_le_mul (hmax ▸ hroom) (le_refl _)
  have hstart : Cursor.print ⟨List.replicate logarrsize 0, 0⟩ (lit "[") =
      some (.behind (lit "[")) := print_behind [] _ (by decide)
  obtain ⟨hrun, hlen⟩ := writeLogs_refines env now hwnow 0 (maxLogEntries - ids.length) (lit "[")
    hwhole (by omega)
  change writeLogs env now hwnow 0 (slotsOf ids) heap _ = _ at hrun
  dsimp only
  unfold slotsOf at hrun ⊢
  generalize logArray env now hwnow 0 (ids.map some ++ List.replicate (maxLogEntries - ids.length)
    none) heap (lit "[") = result at hrun hlen ⊢
  obtain ⟨err, heap', text⟩ := result
  have hfits : text.length + (lit "]").length < logarrsize := by
    dsimp only at hlen
    omega
  refine ⟨?_, by rwa [List.length_append]⟩
  rw [writeLogarray, hstart]
  simp only [Option.bind_eq_bind, Option.bind_some, hrun]
  by_cases herr : err = .ok
  · simp only [herr, ne_eq, not_true_eq_false, if_false, if_true, print_behind _ _ hfits,
      Option.bind_some, Option.pure_def]
  · simp only [herr, ne_eq, not_false_eq_true, if_true, if_false, Option.pure_def]

/-- A line as `dlog` stores it: its prefix and the bytes of a message, with room for a
terminator. -/
structure StoredLine where
  ms : Nat
  lvl : LogLvl
  message : List UInt8
  nul_free : 0 ∉ message
  fits : (logPrefix ms lvl ++ message).length ≤ maxLogLen - 1

/-- The bytes of the line in front of its terminator. -/
def StoredLine.bytes (line : StoredLine) : List UInt8 :=
  logPrefix line.ms line.lvl ++ line.message

/-- A stored line is a whole line in its buffer. -/
theorem StoredLine.whole (line : StoredLine) : Whole (printbuf line.bytes) := by
  have hshort : line.bytes.length < maxLogLen := Nat.lt_of_le_of_lt line.fits (by decide)
  exact whole_printbuf (isLine_append (isLine_logPrefix line.ms line.lvl) _) hshort

/-- For every sequence of stored lines in distinct buffers, and every outcome of the encodings, no
byte outside of `logarray` is touched, and when all the encodings are made, the text in it is an
array whose elements are decoded to the lines after `log_transform_ts`. -/
theorem logs_lossless (env : Env) (now hwnow : Nat) {heap : Heap} {ids : List BufId}
    (lines : List StoredLine) (hroom : ids.length ≤ maxLogEntries) (hnodup : ids.Nodup)
    (hlines : ids.map (heap.bufs[·]?) = lines.map fun line ↦ some (printbuf line.bytes)) :
    ∃ err heap' cursor,
      writeLogarray env now hwnow (slotsOf ids) heap = some (err, heap', cursor) ∧
      cursor.logarray.length = logarrsize ∧
      (err = .ok ↔ ∀ i < ids.length, env.b64 i = true) ∧
      (err = .ok → ∃ text elements, get cursor.logarray = some text ∧
        JsonText.array text = some elements ∧
        elements.map Base64.decode = lines.map fun line ↦
          some (lineText (logTransformTs (printbuf line.bytes) now hwnow))) := by
  have hline : ∀ id ∈ ids, ∃ line : StoredLine, heap.bufs.getD id [] = printbuf line.bytes := by
    intro id hid
    have hmem : heap.bufs[id]? ∈ ids.map (heap.bufs[·]?) := List.mem_map_of_mem hid
    rw [hlines] at hmem
    obtain ⟨line, _, hbuf⟩ := List.mem_map.mp hmem
    exact ⟨line, by rw [List.getD_eq_getElem?_getD, ← hbuf, Option.getD_some]⟩
  have hwhole : ∀ id ∈ ids, Whole (heap.bufs.getD id []) := fun id hid ↦ by
    obtain ⟨line, hbuf⟩ := hline id hid
    rw [hbuf]
    exact line.whole
  have hlogs : ids.map (fun id ↦ some (rebasedLog heap now hwnow id)) =
      lines.map fun line ↦ some (lineText (logTransformTs (printbuf line.bytes) now hwnow)) := by
    have hmapped := congrArg
      (List.map fun buf ↦ some (lineText (logTransformTs (Option.getD buf []) now hwnow))) hlines
    simp only [List.map_map, Function.comp_def, Option.getD_some] at hmapped
    rw [← hmapped]
    exact List.map_congr_left fun id _ ↦ by rw [rebasedLog, List.getD_eq_getElem?_getD]
  obtain ⟨hrun, hlen⟩ := writeLogarray_refines env now hwnow hroom hwhole
  have herr := (logArray_cases env now hwnow 0 (slotsOf ids) heap (lit "[")).1
  rw [takeWhile_slotsOf, List.length_map] at herr
  simp only [Nat.zero_add] at herr
  refine ⟨_, _, _, hrun, behind_length ?_, herr, fun hok ↦ ?_⟩
  · rw [List.length_append] at hlen
    split
    · rw [List.length_append]
      omega
    · omega
  · have htext := logArray_text now hwnow (maxLogEntries - ids.length) heap (lit "[") hnodup
      (herr.mp hok)
    change (logArray env now hwnow 0 (slotsOf ids) heap (lit "[")).2.2 = _ at htext
    rw [htext] at hlen
    rw [if_pos hok, htext]
    refine ⟨_, _, get_behind (zero_notMem_logElements heap now hwnow ids) hlen,
      array_logElements heap now hwnow ids, ?_⟩
    rw [← hlogs, List.map_map]
    exact List.map_congr_left fun id _ ↦ decode_b64Encode _

/-- Two logs of different lengths, the second of them stored first. -/
theorem logs_lossless_two :
    let first : StoredLine := ⟨1700, .info, lit "Connected.\n", by decide, by decide +kernel⟩
    let second : StoredLine := ⟨25000, .err, lit "failed", by decide, by decide +kernel⟩
    let heap : Heap := ⟨[printbuf second.bytes, printbuf first.bytes], []⟩
    ∃ err heap' cursor,
      writeLogarray {} 1750000000000 30000 (slotsOf [1, 0]) heap = some (err, heap', cursor) ∧
      cursor.logarray.length = logarrsize ∧
      (err = .ok ↔ ∀ i < [1, 0].length, ({} : Env).b64 i = true) ∧
      (err = .ok → ∃ text elements, get cursor.logarray = some text ∧
        JsonText.array text = some elements ∧
        elements.map Base64.decode = [first, second].map fun line ↦
          some (lineText (logTransformTs (printbuf line.bytes) 1750000000000 30000))) :=
  logs_lossless {} 1750000000000 30000
    [⟨1700, .info, lit "Connected.\n", by decide, by decide +kernel⟩,
      ⟨25000, .err, lit "failed", by decide, by decide +kernel⟩] (by decide) (by decide) rfl

end DirtieNode.Connect
