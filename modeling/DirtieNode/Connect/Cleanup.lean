import DirtieNode.AccessPoint.Credentials
import DirtieNode.Connect.LogArray
import DirtieNode.Logger.Slots

/-!
# The cleanup of `logdump`

The blocks that a call of `logdump` allocates and frees, along with what it does to the logs. A call
that fails before it publishes anything should leave no trace: `atomic_iff` says that it does so
exactly when the pointers without a value are null and the logs it got to need no other times.
-/

namespace DirtieNode.Connect

open AccessPoint CString Logger State Util

/-- A block that `logdump` knows: its own ones, and what a log or a pointer without a value points
to. -/
inductive Block where
  | log (id : BufId)
  | logarray
  | encbuf (i : Nat)
  | payload
  deriving DecidableEq

/-- The blocks that a call has allocated and those it has freed, in order. -/
structure Calls where
  allocated : List Block := []
  freed : List Block := []

/-- A block is allocated. -/
def Calls.malloc (calls : Calls) (block : Block) : Calls :=
  { calls with allocated := calls.allocated ++ [block] }

/-- A block is freed. Freeing a null pointer does nothing. -/
def Calls.free (calls : Calls) (ptr : Option Block) : Calls :=
  { calls with freed := calls.freed ++ ptr.toList }

/-- `B64_BUFFER_SIZE`. -/
def b64BufferSize : Nat := 1024 * 64

/-- The blocks of `b64_encode`. Only a text that outgrows its block needs `realloc`, and the block
is lost when that fails. -/
def Calls.b64Encode (calls : Calls) (i : Nat) (src : List UInt8) (ok lost : Bool) : Calls :=
  if ok then (calls.malloc (.encbuf i)).free (some (.encbuf i))
  else if lost && decide (b64BufferSize < (Connect.b64Encode src).length + 1) then
    calls.malloc (.encbuf i)
  else calls

/-- The blocks of the loop of `logdump` from slot `i` on. -/
def logArrayCalls (env : Env) (lost : Nat → Bool) (now hwnow : Nat) :
    Nat → List (Option BufId) → Heap → Calls → Calls
  | _, [], _, calls => calls
  | _, none :: _, _, calls => calls
  | i, some buf :: rest, heap, calls =>
      let heap := heap.rebase now hwnow buf
      let calls := calls.b64Encode i (logText heap buf) (env.b64 i) (lost i)
      if !env.b64 i then calls else logArrayCalls env lost now hwnow (i + 1) rest heap calls

/-- `free` on the log heap. -/
def freeBlock (heap : Heap) : Option Block → Heap
  | some (.log id) => heap.free (some id)
  | _ => heap

/-- `logdump` with its blocks. The last argument says which failing encodings got as far as
`realloc`. -/
def logdumpCalls (env : Env) (lost : Nat → Bool) (ram : Ram) : DtErr × Ram × Calls :=
  let strayLogarray := env.strayLogarray.map Block.log
  let strayPayload := env.strayPayload.map Block.log
  let cleanup (err : DtErr) (heap : Heap) (calls : Calls) (logarray payload : Option Block) :
      DtErr × Ram × Calls :=
    let heap := freeBlock (freeBlock heap logarray) payload
    (err, { ram with logs := { ram.logs with heap := heap } }, (calls.free logarray).free payload)
  match getCurrentEpoch env.nowMs ram.ctx.ntpState with
  | (err, none) => cleanup err ram.logs.heap {} strayLogarray strayPayload
  | (_, some now) =>
      if !env.logarray then cleanup .malloc ram.logs.heap {} none strayPayload
      else
        let calls := Calls.malloc {} .logarray
        let calls :=
          logArrayCalls env lost now env.hwnow 0 ram.logs.logdump ram.logs.heap calls
        match logArray env now env.hwnow 0 ram.logs.logdump ram.logs.heap (lit "[") with
        | (.ok, heap, text) =>
            if !env.payload then cleanup .malloc heap calls (some .logarray) none
            else
              let calls := calls.malloc .payload
              let payload := templateHead env (ram.ctx.text.str prvToken) ++ lit ",\"logdump\":" ++
                text ++ lit "]\x7d"
              let logs := freeLogs { ram.logs with heap := heap }
              let calls :=
                ram.logs.logdump.foldl (fun calls slot ↦ calls.free (slot.map .log)) calls
              let calls := calls.free (some .logarray)
              let (err, ram) := publish env topicLogdump payload { ram with logs := logs }
              (err, ram, calls.free (some .payload))
        | (err, heap, _) => cleanup err heap calls (some .logarray) strayPayload

@[simp] theorem freeBlock_none (heap : Heap) : freeBlock heap none = heap := rfl

@[simp] theorem freeBlock_logarray (heap : Heap) : freeBlock heap (some .logarray) = heap := rfl

/-- Freeing a stray pointer frees the log buffer that it points to. -/
theorem freeBlock_stray (heap : Heap) (ptr : Option BufId) :
    freeBlock heap (ptr.map .log) = heap.free ptr := by
  cases ptr with
  | none => simp [freeBlock, Heap.free]
  | some id => rfl

/-- The blocks aside, this is `logdump`. -/
theorem logdumpCalls_eq (env : Env) (lost : Nat → Bool) (ram : Ram) :
    logdump env ram = ((logdumpCalls env lost ram).1, (logdumpCalls env lost ram).2.1) := by
  have hnone : ∀ heap : Heap, heap.free none = heap := by simp [Heap.free]
  unfold logdump logdumpCalls
  generalize getCurrentEpoch env.nowMs ram.ctx.ntpState = epoch
  obtain ⟨err, now⟩ := epoch
  cases now with
  | none => simp only [freeBlock_stray]
  | some now =>
      dsimp only
      split
      · simp only [freeBlock_stray, freeBlock_none, hnone]
      · generalize logArray env now env.hwnow 0 ram.logs.logdump ram.logs.heap (lit "[") = result
        obtain ⟨err, heap, text⟩ := result
        cases err <;> simp only [freeBlock_stray, freeBlock_none, freeBlock_logarray, hnone]
        split <;> rfl

/-! ## The loop -/

/-- The logs that the loop gets to from slot `i` on: up to the first one that is not encoded. -/
def reached (env : Env) : Nat → List BufId → List BufId
  | _, [] => []
  | i, id :: ids => id :: if env.b64 i then reached env (i + 1) ids else []

section Loop

variable {env : Env} {now hwnow i free : Nat} {heap : Heap} {ids : List BufId}

/-- The logs that the loop reaches are some of those in the slots. -/
theorem reached_subset (env : Env) (i : Nat) (ids : List BufId) : reached env i ids ⊆ ids := by
  induction ids generalizing i with
  | nil => exact List.Subset.refl _
  | cons id ids ih =>
      rw [reached]
      refine List.cons_subset_cons id ?_
      split
      · exact ih (i + 1)
      · exact List.nil_subset _

/-- A log has room in the first block of `b64_encode`. -/
theorem b64Encode_fits {buf : BufId} (h : Whole (heap.bufs.getD buf [])) :
    (b64Encode (logText heap buf)).length + 1 ≤ b64BufferSize := by
  have hshort : (logText heap buf).length < maxLogLen := h.short
  have hmax : maxLogLen = 1024 := rfl
  rw [b64Encode_length, b64BufferSize]
  omega

/-- The encodings free what they allocate, and a failing one allocates nothing. -/
theorem logArrayCalls_balanced (env : Env) (lost : Nat → Bool) (now hwnow i free : Nat)
    (hwhole : ∀ id ∈ ids, Whole (heap.bufs.getD id [])) (calls : Calls) :
    ∃ blocks, logArrayCalls env lost now hwnow i (ids.map some ++ List.replicate free none) heap
      calls = ⟨calls.allocated ++ blocks, calls.freed ++ blocks⟩ := by
  induction ids generalizing i heap calls with
  | nil => cases free <;> exact ⟨[], by simp [List.replicate_succ, logArrayCalls]⟩
  | cons buf ids ih =>
      have hrebased := whole_rebase now hwnow hwhole buf
      have hfits := b64Encode_fits (hrebased buf List.mem_cons_self)
      rw [List.map_cons, List.cons_append, logArrayCalls]
      cases env.b64 i with
      | false => exact ⟨[], by simp [Calls.b64Encode, Nat.not_lt.mpr hfits]⟩
      | true =>
          obtain ⟨blocks, hrest⟩ := ih (i + 1)
            (fun id hid ↦ hrebased id (List.mem_cons_of_mem _ hid))
            (calls.b64Encode i (logText (heap.rebase now hwnow buf) buf) true (lost i))
          refine ⟨.encbuf i :: blocks, ?_⟩
          simp only [Bool.not_true, Bool.false_eq_true, if_false]
          rw [hrest]
          simp [Calls.b64Encode, Calls.malloc, Calls.free]

/-- The times are changed in the logs that the loop gets to. -/
theorem logArray_bufs (env : Env) (now hwnow i free : Nat) (heap : Heap) (hnodup : ids.Nodup)
    (text : List UInt8) (id : BufId) :
    (logArray env now hwnow i (ids.map some ++ List.replicate free none) heap text).2.1.bufs.getD
        id [] =
      if id ∈ reached env i ids then logTransformTs (heap.bufs.getD id []) now hwnow
      else heap.bufs.getD id [] := by
  induction ids generalizing i heap text with
  | nil => cases free <;> simp [List.replicate_succ, logArray, reached]
  | cons buf ids ih =>
      obtain ⟨hfresh, hrest⟩ := List.nodup_cons.mp hnodup
      rw [List.map_cons, List.cons_append, logArray_cons, reached]
      cases env.b64 i with
      | false =>
          simp only [if_true, List.mem_singleton, Bool.false_eq_true, if_false]
          exact heap.rebase_getD now hwnow buf id
      | true =>
          have hlater : buf ∉ reached env (i + 1) ids := fun hmem ↦
            hfresh (reached_subset env (i + 1) ids hmem)
          simp only [Bool.true_eq_false, if_false, if_true, ih _ _ hrest, Heap.rebase_getD,
            List.mem_cons]
          by_cases hid : id = buf
          · simp [hid, hlater]
          · simp [hid]

/-- The loop does not look at what has been freed. -/
theorem logArray_frees (slots : List (Option BufId)) (frees : List BufId) (text : List UInt8) :
    logArray env now hwnow i slots { heap with frees := frees } text =
      let result := logArray env now hwnow i slots heap text
      (result.1, { result.2.1 with frees := frees }, result.2.2) := by
  induction slots generalizing i heap text with
  | nil => rfl
  | cons slot slots ih =>
      cases slot with
      | none => rfl
      | some buf =>
          rw [logArray_cons, logArray_cons]
          split
          · rfl
          · exact @ih (i + 1) (heap.rebase now hwnow buf) _

/-- What fails in the loop is an allocation. -/
theorem logArray_error (slots : List (Option BufId)) (text : List UInt8)
    (hfail : (logArray env now hwnow i slots heap text).1 ≠ .ok) :
    (logArray env now hwnow i slots heap text).1 = .malloc := by
  induction slots generalizing i heap text with
  | nil => exact absurd rfl hfail
  | cons slot slots ih =>
      cases slot with
      | none => exact absurd rfl hfail
      | some buf =>
          rw [logArray_cons] at hfail ⊢
          split
          · rfl
          · rw [if_neg ‹_›] at hfail
            exact ih _ hfail

end Loop

/-! ## Calls that fail -/

/-- The call fails before it publishes anything. -/
def FailsEarly (env : Env) (ram : Ram) : Prop :=
  (getCurrentEpoch env.nowMs ram.ctx.ntpState).2 = none ∨ env.logarray = false ∨
    (∃ i < (held ram.logs).length, env.b64 i = false) ∨ env.payload = false

/-- The error of what has failed. -/
def dumpError (env : Env) (ram : Ram) : DtErr :=
  match getCurrentEpoch env.nowMs ram.ctx.ntpState with
  | (err, none) => err
  | (_, some _) => .malloc

/-- The pointers without a value that the cleanup frees. -/
def strays (env : Env) (ram : Ram) : List BufId :=
  if (getCurrentEpoch env.nowMs ram.ctx.ntpState).2 = none then
    env.strayLogarray.toList ++ env.strayPayload.toList
  else if env.logarray = false ∨ ∃ i < (held ram.logs).length, env.b64 i = false then
    env.strayPayload.toList
  else []

/-- A log after the call. -/
def rewritten (env : Env) (ram : Ram) (id : BufId) : List UInt8 :=
  match (getCurrentEpoch env.nowMs ram.ctx.ntpState).2 with
  | none => ram.logs.heap.bufs.getD id []
  | some now =>
      if env.logarray = true ∧ id ∈ reached env 0 (held ram.logs) then
        logTransformTs (ram.logs.heap.bufs.getD id []) now env.hwnow
      else ram.logs.heap.bufs.getD id []

section Failure

variable {env : Env} {lost : Nat → Bool} {ram : Ram}

@[simp] theorem freeBlock_bufs (heap : Heap) (ptr : Option Block) :
    (freeBlock heap ptr).bufs = heap.bufs := by
  unfold freeBlock
  split <;> rfl

/-- The loop on stored logs: whether it gets through, the logs it leaves, and its blocks. -/
theorem loop_cases (env : Env) (lost : Nat → Bool) (now : Nat) (h : LinesStored ram.logs) :
    let result := logArray env now env.hwnow 0 ram.logs.logdump ram.logs.heap (lit "[")
    (result.1 = .ok ∧ ¬ (∃ i < (held ram.logs).length, env.b64 i = false) ∨
        result.1 = .malloc ∧ ∃ i < (held ram.logs).length, env.b64 i = false) ∧
      result.2.1.bufs.length = ram.logs.heap.bufs.length ∧
      (∀ id, result.2.1.bufs.getD id [] =
        if id ∈ reached env 0 (held ram.logs) then
          logTransformTs (ram.logs.heap.bufs.getD id []) now env.hwnow
        else ram.logs.heap.bufs.getD id []) ∧
      ∃ blocks, logArrayCalls env lost now env.hwnow 0 ram.logs.logdump ram.logs.heap
        (Calls.malloc {} .logarray) = ⟨.logarray :: blocks, blocks⟩ := by
  have hslots : (held ram.logs).map some ++
      List.replicate (maxLogEntries - (held ram.logs).length) none = ram.logs.logdump :=
    h.stored.slots.symm
  obtain ⟨hok, hlength, _⟩ :=
    logArray_cases env now env.hwnow 0 ram.logs.logdump ram.logs.heap (lit "[")
  have hencoded : (∀ j < (ram.logs.logdump.takeWhile Option.isSome).length,
      env.b64 (0 + j) = true) ↔ ¬ ∃ i < (held ram.logs).length, env.b64 i = false := by
    rw [h.stored.slots, takeWhile_slotsOf, List.length_map]
    simp
  have htexts := logArray_bufs env now env.hwnow 0 (maxLogEntries - (held ram.logs).length)
    ram.logs.heap h.nodup (lit "[")
  obtain ⟨blocks, hblocks⟩ := logArrayCalls_balanced env lost now env.hwnow 0
    (maxLogEntries - (held ram.logs).length) h.whole (Calls.malloc {} .logarray)
  rw [hslots] at htexts hblocks
  refine ⟨?_, hlength, htexts, blocks, hblocks⟩
  by_cases hall : (logArray env now env.hwnow 0 ram.logs.logdump ram.logs.heap (lit "[")).1 = .ok
  · exact .inl ⟨hall, hencoded.mp (hok.mp hall)⟩
  · exact .inr ⟨logArray_error _ _ hall,
      Classical.not_not.mp fun hnone ↦ hall (hok.mpr (hencoded.mpr hnone))⟩

/-- What a failing call returns, frees and changes. -/
theorem logdumpCalls_fails (h : LinesStored ram.logs) (hfails : FailsEarly env ram)
    (lost : Nat → Bool) :
    ∃ heap calls,
      logdumpCalls env lost ram =
        (dumpError env ram, { ram with logs := { ram.logs with heap := heap } }, calls) ∧
      calls.freed.Perm (calls.allocated ++ (strays env ram).map .log) ∧
      heap.bufs.length = ram.logs.heap.bufs.length ∧
      ∀ id, heap.bufs.getD id [] = rewritten env ram id := by
  have htoList : ∀ ptr : Option BufId, (ptr.map Block.log).toList = ptr.toList.map .log := by
    intro ptr
    cases ptr <;> rfl
  unfold FailsEarly at hfails
  unfold logdumpCalls dumpError strays rewritten
  generalize getCurrentEpoch env.nowMs ram.ctx.ntpState = epoch at hfails ⊢
  obtain ⟨err, now⟩ := epoch
  cases now with
  | none =>
      refine ⟨_, _, rfl, ?_, by simp, fun id ↦ by simp⟩
      simp [Calls.free, htoList]
  | some now =>
      dsimp only at hfails ⊢
      cases hlogarray : env.logarray with
      | false =>
          refine ⟨_, _, rfl, ?_, by simp, fun id ↦ by simp⟩
          simp [Calls.free, htoList]
      | true =>
          obtain ⟨hend, hlength, htexts, blocks, hblocks⟩ := loop_cases env lost now h
          simp only [hlogarray, Bool.not_true, Bool.false_eq_true, if_false, hblocks,
            Bool.true_eq_false, false_or, true_and, reduceCtorEq] at hfails ⊢
          generalize logArray env now env.hwnow 0 ram.logs.logdump ram.logs.heap (lit "[") =
            result at hend hlength htexts ⊢
          obtain ⟨rerr, heap, text⟩ := result
          rcases hend with ⟨rfl, hnone⟩ | ⟨rfl, hsome⟩
          · -- all the logs are encoded, so it is the payload that has no memory
            have hpayload := hfails.resolve_left hnone
            simp only [hpayload, hnone, if_false, Bool.not_false, if_true]
            refine ⟨_, _, rfl, ?_, hlength, htexts⟩
            simp [Calls.free]
          · simp only [hsome, if_true]
            refine ⟨_, _, rfl, ?_, by simpa using hlength, fun id ↦ ?_⟩
            · simp [Calls.free, htoList]
            · rw [freeBlock_bufs, freeBlock_bufs]
              exact htexts id

/-- What is published does not depend on what has been freed. -/
theorem logdump_sent (env : Env) (ram : Ram) (frees : List BufId) :
    (logdump env { ram with
      logs := { ram.logs with heap := { ram.logs.heap with frees := frees } } }).2.sent =
        (logdump env ram).2.sent := by
  unfold logdump
  dsimp only
  generalize getCurrentEpoch env.nowMs ram.ctx.ntpState = epoch
  obtain ⟨err, now⟩ := epoch
  cases now with
  | none => rfl
  | some now =>
      dsimp only
      rw [logArray_frees]
      split
      · rfl
      · generalize logArray env now env.hwnow 0 ram.logs.logdump ram.logs.heap (lit "[") = result
        obtain ⟨err, heap, text⟩ := result
        cases err <;> dsimp only
        split
        · rfl
        · unfold publish
          dsimp only
          split <;> rfl

/-- The call returns the error of what has failed, frees what it has allocated and nothing else, and
leaves the texts of the logs as they were: any later call publishes the same. -/
structure Atomic (env : Env) (lost : Nat → Bool) (ram : Ram) : Prop where
  error : (logdumpCalls env lost ram).1 = dumpError env ram
  freed : (logdumpCalls env lost ram).2.2.freed.Perm (logdumpCalls env lost ram).2.2.allocated
  kept : ∀ id ∈ held ram.logs,
    logText (logdumpCalls env lost ram).2.1.logs.heap id = logText ram.logs.heap id
  later : ∀ later : Env,
    (logdump later (logdumpCalls env lost ram).2.1).2.sent = (logdump later ram).2.sent

/-- The pointers without a value that the cleanup frees are null, and the logs that the loop gets to
have the digits already that `log_transform_ts` writes. -/
def Undone (env : Env) (ram : Ram) : Prop :=
  strays env ram = [] ∧
    ∀ now, (getCurrentEpoch env.nowMs ram.ctx.ntpState).2 = some now → env.logarray = true →
      ∀ id ∈ reached env 0 (held ram.logs),
        HasEpoch (ram.logs.heap.bufs.getD id []) now env.hwnow

/-- For all stored logs, every way to fail before the call publishes, and whatever the pointers
without a value hold. -/
theorem atomic_iff (h : LinesStored ram.logs) (hfails : FailsEarly env ram) (lost : Nat → Bool) :
    Atomic env lost ram ↔ Undone env ram := by
  obtain ⟨heap, calls, hrun, hfreed, hlength, htexts⟩ := logdumpCalls_fails h hfails lost
  constructor
  · intro hatomic
    have hbalanced : calls.freed.Perm calls.allocated := by
      have hfreed := hatomic.freed
      rwa [hrun] at hfreed
    have hkept := hatomic.kept
    rw [hrun] at hkept
    refine ⟨?_, fun now hnow hlogarray id hid ↦ ?_⟩
    · have hcount := (hfreed.symm.trans hbalanced).length_eq
      rw [List.length_append, List.length_map] at hcount
      exact List.eq_nil_of_length_eq_zero (by omega)
    · have hheld := reached_subset env 0 (held ram.logs) hid
      have htext : lineText (heap.bufs.getD id []) = lineText (ram.logs.heap.bufs.getD id []) :=
        hkept id hheld
      rw [htexts, rewritten, hnow] at htext
      dsimp only at htext
      rw [if_pos ⟨hlogarray, hid⟩] at htext
      exact (logTransformTs_text_iff (h.whole id hheld).line now env.hwnow).mp htext
  · rintro ⟨hstrays, hsame⟩
    have hbufs : ∀ id, heap.bufs.getD id [] = ram.logs.heap.bufs.getD id [] := by
      intro id
      rw [htexts, rewritten]
      split
      · rfl
      · rename_i now hnow
        split
        · rename_i hreached
          obtain ⟨hlogarray, hid⟩ := hreached
          have hline := (h.whole id (reached_subset env 0 _ hid)).line
          exact (logTransformTs_eq_self_iff hline now env.hwnow).mpr
            (hsame now hnow hlogarray id hid)
        · rfl
    have hheap : heap = { ram.logs.heap with frees := heap.frees } := by
      have hall : heap.bufs = ram.logs.heap.bufs := List.ext_getElem hlength fun i hi hi' ↦ by
        have hsame := hbufs i
        rwa [List.getD_eq_getElem _ _ hi, List.getD_eq_getElem _ _ hi'] at hsame
      exact congrArg (Heap.mk · heap.frees) hall
    refine ⟨?_, ?_, ?_, ?_⟩ <;> rw [hrun]
    · rw [hstrays, List.map_nil, List.append_nil] at hfreed
      exact hfreed
    · intro id _
      exact congrArg lineText (hbufs id)
    · intro later
      dsimp only
      rw [hheap]
      exact logdump_sent later ram heap.frees

end Failure

/-- A synchronised node with a log. -/
def loggedRam : Ram where
  ctx := { bootCtx with
    ntpState := some { epochSecs := 1750000000, hwRefMs := 20000, synced := true } }
  logs := (dlog { ms := 1700 } .info (lit "connecting to home\n") {}).2

/-- The log is a line in a buffer of its own. -/
theorem linesStored_loggedRam : LinesStored loggedRam.logs :=
  linesStored_init.dlog (by decide) _ _

/-- The array has no memory, and the pointer to the payload is null. -/
theorem atomic_without_array :
    Atomic { logarray := false, nowMs := 30000, hwnow := 30000 } (fun _ ↦ false) loggedRam :=
  (atomic_iff linesStored_loggedRam (.inr (.inl rfl)) fun _ ↦ false).mpr
    ⟨by decide +kernel, fun _ _ h ↦ absurd h (by decide)⟩

/-- The payload has no memory, and the log keeps the time of the call that failed. -/
theorem time_rewritten : ¬ ∀ (env : Env) (lost : Nat → Bool) (ram : Ram),
    LinesStored ram.logs → FailsEarly env ram → Atomic env lost ram := by
  intro hclaim
  let env : Env := { payload := false, nowMs := 30000, hwnow := 30000 }
  have hfails : FailsEarly env loggedRam := .inr (.inr (.inr rfl))
  have hheld : 0 ∈ held loggedRam.logs := by decide +kernel
  have hchanged : logText (logdumpCalls env (fun _ ↦ false) loggedRam).2.1.logs.heap 0 ≠
      logText loggedRam.logs.heap 0 := by decide +kernel
  exact hchanged ((hclaim env _ loggedRam linesStored_loggedRam hfails).kept 0 hheld)

end DirtieNode.Connect
