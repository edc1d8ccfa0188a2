import DirtieNode.DtErr
import DirtieNode.Library.Search

/-!
# The flash key-value store

The functions of `flashmem.c` on the bytes they read and write. The persistent region is
`NVS_SIZE` bytes of flash, read as one C string of the form `,key1=val1,key2=val2`. A result of
`none` is an access outside the region or outside a buffer, which C leaves undefined. `malloc` is
taken to succeed where the source does not test it.
-/

namespace DirtieNode.Flashmem

open CString

/-- `NVS_SIZE`, the flash sector alignment size. -/
def nvsSize : Nat := 4096

/-- `PAGE_SIZE`: flash is programmed in pages of this many bytes. -/
def pageSize : Nat := 256

/-- `MAX_VAL_SIZE`. -/
def maxValSize : Nat := 256

/-- `,` separates two items. -/
def comma : UInt8 := 44

/-- `=` separates a key from its value. -/
def equals : UInt8 := 61

/-- A backslash is in front of an escaped character. -/
def backslash : UInt8 := 92

/-! ## The region -/

/-- The persistent region at `ADDR_PERSISTENT`. -/
structure Region where
  bytes : List UInt8
  size : bytes.length = nvsSize

/-- Overwrite the first bytes of the region. -/
def Region.store (region : Region) (src : List UInt8) : Option Region :=
  if h : src.length ≤ nvsSize then
    some ⟨src ++ region.bytes.drop src.length, by simp [region.size, h]⟩
  else none

/-- `flash_op_ctx_t`, without the offset, which is always that of the region. -/
structure FlashOp where
  data : List UInt8
  eraseCount : Nat
  progCount : Nat

/-- `flash_range_erase`: erased flash reads as `0xFF`. -/
def flashRangeErase (region : Region) (count : Nat) : Option Region :=
  region.store (List.replicate count 0xFF)

/-- `flash_range_program`: the first `count` bytes of the data, into erased flash. -/
def flashRangeProgram (region : Region) (data : List UInt8) (count : Nat) : Option Region := do
  let page ← load data 0 count
  region.store page

/-- `do_flash_erase_program`. -/
def doFlashEraseProgram (op : FlashOp) (region : Region) : Option Region := do
  let erased ← flashRangeErase region op.eraseCount
  flashRangeProgram erased op.data op.progCount

/-- `initialize_flash`, with the outcome of its `malloc`. -/
def initializeFlash (forceClear mallocOk : Bool) (region : Region) : Option (DtErr × Region) :=
  if !forceClear && region.bytes.any (· != 0xFF) then some (.ok, region)
  else if !mallocOk then some (.malloc, region)
  else do
    let zeroBuf := List.replicate nvsSize 0
    let cleared ← doFlashEraseProgram ⟨zeroBuf, nvsSize, nvsSize⟩ region
    pure (.ok, cleared)

/-! ## Items -/

/-- The bytes `esc_chars` puts a backslash before. -/
def isSpecial (b : UInt8) : Bool :=
  b == equals || b == comma || b == backslash

/-- The first loop of `esc_chars`, which counts the bytes to allocate. -/
def escSize : List UInt8 → Nat
  | [] => 1
  | c :: rest => (if isSpecial c then 2 else 1) + escSize rest

/-- The second loop of `esc_chars`: the bytes written before the terminator. -/
def escChars : List UInt8 → List UInt8
  | [] => []
  | c :: rest => if isSpecial c then backslash :: c :: escChars rest else c :: escChars rest

/-- `get_next_item`: the offset of the next comma, or `NULL`. -/
def getNextItem : List UInt8 → Option (Option Nat)
  | [] => none
  | b :: rest =>
      if b = 0 then some none
      else if b = comma then some (some 0)
      else (getNextItem rest).map (Option.map (· + 1))

/-- `splice`: put `replace` where the bytes from `start` to `stop` are. The size test adds an
`int` difference to two `size_t` values. -/
def splice (buf : List UInt8) (start stop : Nat) (replace : List UInt8) :
    Option (DtErr × List UInt8) := do
  let endSz ← strlen (buf.drop stop)
  let bufLen ← strlen buf
  if sizeT (bufLen + sizeT ((start : Int) - endSz) + replace.length) > nvsSize then
    pure (.flashmemsize, buf)
  else
    let chunkPre ← load buf 0 start
    let chunkPost ← load buf stop endSz
    let buf ← memset buf 0 nvsSize
    let buf ← memcpy buf 0 chunkPre
    let buf ← memcpy buf start replace
    let newChunkPostStart ← (← strchr (buf.drop start) 0)
    let buf ← memcpy buf (start + newChunkPostStart) chunkPost
    pure (.ok, buf)

/-- The check that `upsert_key` and `read` make of a key. -/
def badKey (key : CStr) : Prop :=
  backslash ∈ key.bytes ∨ comma ∈ key.bytes ∨ equals ∈ key.bytes

instance (key : CStr) : Decidable (badKey key) :=
  inferInstanceAs (Decidable (_ ∨ _))

/-- The text `key=` that `upsert_key` and `read` search for. -/
def keySearch (key : CStr) : List UInt8 :=
  key.bytes ++ [equals]

/-- `upsert_key` on a buffer, with the region that its call of `initialize_flash` may clear. -/
def upsertKey (key val : CStr) (region : Region) (buf : List UInt8) :
    Option (DtErr × Region × List UInt8) :=
  if badKey key then some (.invalidkey, region, buf)
  else do
    let (_, region) ← initializeFlash false true region
    let cleanVal := escChars val.bytes
    let keyValItem := keySearch key ++ cleanVal
    match ← strstr buf (keySearch key) with
    | none =>
        let bufLen ← strlen buf
        if sizeT ((keySearch key).length + cleanVal.length + bufLen + 1) > nvsSize - 1 then
          pure (.flashmemsize, region, buf)
        else
          let stop ← (← strchr buf 0)
          let buf ← memcpy buf stop [comma]
          let buf ← memcpy buf (stop + 1) (keyValItem ++ [0])
          pure (.ok, region, buf)
    | some keyLoc =>
        let stop ← match ← getNextItem (buf.drop keyLoc) with
          | some next => pure (keyLoc + next)
          | none => (← strchr buf 0)
        -- the result of `splice` is not looked at
        let (_, buf) ← splice buf keyLoc stop keyValItem
        pure (.ok, region, buf)

/-- The byte count that `write` programs for a string of this length. -/
def writeSize (memSize : Nat) : Nat :=
  if memSize % 256 ≠ 0 then (memSize / 256 + 1) * 256 else memSize

/-- `write`. -/
def write (key val : CStr) (region : Region) : Option (DtErr × Region) :=
  if val.bytes.length > maxValSize then some (.valsize, region)
  else do
    let (err, region, buf) ← upsertKey key val region region.bytes
    if err ≠ .ok then pure (err, region)
    else
      let memSize ← strlen buf
      let region ← doFlashEraseProgram ⟨buf, nvsSize, writeSize memSize⟩ region
      pure (.ok, region)

/-! ## Reading -/

/-- The loop of `get_val_end` over the bytes before the terminator, from index `i` on. After a
backslash the index moves on by one before it is compared with the comma. -/
def valEndLoop : List UInt8 → Nat → Option Nat
  | [], _ => none
  | [b], i => if b = comma then some i else none
  | b :: c :: rest, i =>
      if b = backslash then
        if c = comma then some (i + 1) else valEndLoop rest (i + 2)
      else if b = comma then some i
      else valEndLoop (c :: rest) (i + 1)

/-- `get_val_end`, with the offset of the end from the value. -/
def getValEnd (val : List UInt8) : Option (DtErr × Option Nat) := do
  let len ← strlen val
  match valEndLoop (val.take len) 0 with
  | some i => pure (.ok, some i)
  | none =>
      match ← strchr val 0 with
      | some i => pure (.ok, some i)
      | none => pure (.corrupt, none)

/-- The loop of `read` that removes backslashes in place, between the offsets `esc_char` and
`end` of the output. The first argument bounds the iterations. -/
def unescapeLoop : Nat → List UInt8 → Nat → Nat → Option (List UInt8)
  | 0, _, _, _ => none
  | fuel + 1, mem, escChar, stop =>
      if escChar < stop then do
        let b ← mem[escChar]?
        if b = backslash then
          let len ← strlen (mem.drop (escChar + 1))
          let chunk ← load mem (escChar + 1) (len + 1)
          let mem ← memcpy mem escChar chunk
          unescapeLoop fuel mem (escChar + 1) (stop - 1)
        else unescapeLoop fuel mem (escChar + 1) stop
      else some mem

/-- `read` into the object `out` from the offset `outVal` on. -/
def read (key : CStr) (region : Region) (out : List UInt8) (outVal : Nat) :
    Option (DtErr × List UInt8) :=
  if badKey key then some (.invalidkey, out)
  else do
    match ← strstr region.bytes (keySearch key) with
    | none => pure (.keynotfound, out)
    | some keyLoc =>
        match ← strchr (region.bytes.drop keyLoc) equals with
        | none => pure (.corrupt, out)
        | some ass =>
            let val := keyLoc + ass + 1
            match ← getValEnd (region.bytes.drop val) with
            | (.ok, some len) =>
                let chunk ← load region.bytes val len
                let out ← memcpy out outVal chunk
                let out ← memcpy out (outVal + len) [0]
                let outLen ← strlen (out.drop outVal)
                let out ← unescapeLoop (outLen + 1) out outVal (outVal + outLen)
                pure (.ok, out)
            | (err, _) => pure (err, out)

end DirtieNode.Flashmem
