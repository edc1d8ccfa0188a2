import Mathlib.Data.List.Nodup
import DirtieNode.Logger.Line

/-!
# The slots for logs

`dlog` puts a buffer into the first free slot, and nothing takes one out again. `Stored` is what all
the logs of a node have in common, and `Grows` what happens to them while nothing frees the slots.
-/

namespace DirtieNode.Logger

open CString

variable {logs logs' logs'' : Logs} {ids : List BufId}

/-- The buffers in the slots. -/
def held (logs : Logs) : List BufId :=
  logs.logdump.filterMap id

/-- The slots determine the buffers in them. -/
theorem slotsOf_filterMap (ids : List BufId) : (slotsOf ids).filterMap id = ids := by
  simp [slotsOf, List.filterMap_append]

/-- The slots tell which buffers are in them. -/
theorem slotsOf_injective : Function.Injective slotsOf := fun ids other h ↦ by
  rw [← slotsOf_filterMap ids, h, slotsOf_filterMap]

/-- The buffers of filled slots. -/
theorem held_of_slots (h : logs.logdump = slotsOf ids) : held logs = ids := by
  rw [held, h, slotsOf_filterMap]

/-- The buffers of slots that were filled in order. -/
theorem held_mk (flag : Bool) (ids : List BufId) (heap : Heap) :
    held ⟨flag, slotsOf ids, heap⟩ = ids :=
  slotsOf_filterMap ids

/-- Up to the first free slot there are all the buffers. -/
theorem takeWhile_slotsOf (ids : List BufId) :
    (slotsOf ids).takeWhile Option.isSome = ids.map some := by
  rw [slotsOf, List.takeWhile_append_of_pos (by simp)]
  cases maxLogEntries - ids.length <;> simp [List.replicate_succ]

/-- A slot is free as long as there are fewer than 16 logs. -/
theorem none_mem_slotsOf (ids : List BufId) :
    none ∈ slotsOf ids ↔ ids.length < maxLogEntries := by
  simp only [slotsOf, List.mem_append, List.mem_map, reduceCtorEq, and_false, exists_false,
    false_or, List.mem_replicate, and_true]
  omega

/-! ## `dlog` -/

/-- The loop finds the first free slot. -/
theorem storeLog_slots (buf : BufId) (i : Nat) (ids : List BufId) (free : Nat) :
    (storeLog buf i (ids.map some ++ List.replicate free none)).1 =
      if free = 0 then none
      else some ((ids ++ [buf]).map some ++ List.replicate (free - 1) none) := by
  induction ids generalizing i with
  | nil =>
      cases free with
      | zero => rfl
      | succ free => simp [List.replicate_succ, storeLog]
  | cons other ids ih =>
      simp only [List.map_cons, List.cons_append, storeLog, ih]
      split <;> simp

/-- A call of `dlog` has no memory, or its message is accepted, or there is no slot for it. -/
inductive DlogChange (env : LogEnv) (lvl : LogLvl) (mesg : List UInt8) (logs : Logs)
    (ids : List BufId) : DtErr × Logs → Prop
  | malloc (h : env.mallocOk = false) : DlogChange env lvl mesg logs ids (.malloc, logs)
  | accepted (flag : Bool) (h : env.mallocOk = true) (hroom : ids.length < maxLogEntries) :
      DlogChange env lvl mesg logs ids (.ok,
        { dumpLogs := flag, logdump := slotsOf (ids ++ [logs.heap.bufs.length])
          heap := (logs.heap.alloc (printbuf (logLine env.ms lvl mesg))).2 })
  | full (flag : Bool) (h : env.mallocOk = true) (hfull : maxLogEntries ≤ ids.length) :
      DlogChange env lvl mesg logs ids (.tooManyLogs,
        { dumpLogs := flag, logdump := logs.logdump
          heap := (logs.heap.alloc (printbuf (logLine env.ms lvl mesg))).2.free
            (some logs.heap.bufs.length) })

/-- `dlog` does one of these things with the slots. -/
theorem dlog_cases (env : LogEnv) (lvl : LogLvl) (mesg : List UInt8)
    (h : logs.logdump = slotsOf ids) :
    DlogChange env lvl mesg logs ids (dlog env lvl mesg logs) := by
  unfold dlog
  cases hmalloc : env.mallocOk with
  | false => exact .malloc hmalloc
  | true =>
      have hstored := storeLog_slots logs.heap.bufs.length 0 ids (maxLogEntries - ids.length)
      rw [show ids.map some ++ List.replicate (maxLogEntries - ids.length) none = logs.logdump
        from h.symm] at hstored
      simp only [Bool.not_true, Bool.false_eq_true, if_false, Heap.alloc]
      by_cases hfull : maxLogEntries - ids.length = 0
      · rw [if_pos hfull] at hstored
        rw [hstored]
        exact .full _ hmalloc (by omega)
      · rw [if_neg hfull] at hstored
        rw [hstored]
        have hslots : (ids ++ [logs.heap.bufs.length]).map some ++
            List.replicate (maxLogEntries - ids.length - 1) none =
              slotsOf (ids ++ [logs.heap.bufs.length]) := by
          simp [slotsOf, Nat.sub_add_eq]
        dsimp only
        rw [hslots]
        exact .accepted _ hmalloc (by omega)

/-! ## Stored logs -/

/-- The slots hold buffers of the heap, in front of the free slots, and the buffers hold lines. -/
structure Stored (logs : Logs) : Prop where
  slots : logs.logdump = slotsOf (held logs)
  room : (held logs).length ≤ maxLogEntries
  below : ∀ id ∈ held logs, id < logs.heap.bufs.length
  lines : logs.heap.Lines

/-- There are no logs at first. -/
theorem stored_init : Stored {} := by
  have hheld : held {} = [] := rfl
  refine ⟨rfl, Nat.zero_le _, ?_, ?_⟩
  · intro id hid
    rw [hheld] at hid
    exact absurd hid List.not_mem_nil
  · intro buf hbuf
    exact absurd hbuf List.not_mem_nil

/-- With the same slots, only the heap matters. -/
theorem Stored.congr (h : Stored logs) (hslots : logs'.logdump = logs.logdump)
    (hbufs : logs'.heap.bufs.length = logs.heap.bufs.length) (hlines : logs'.heap.Lines) :
    Stored logs' := by
  have hheld : held logs' = held logs := by rw [held, hslots, held]
  refine ⟨?_, ?_, ?_, hlines⟩
  · rw [hslots, hheld]
    exact h.slots
  · rw [hheld]
    exact h.room
  · rw [hheld, hbufs]
    exact h.below

/-- Between two states of the logs, messages were accepted and nothing else was freed than buffers
that found no slot. -/
structure Grows (logs logs' : Logs) : Prop where
  kept : held logs <+: held logs'
  fresh : ∀ id ∈ held logs', id ∈ held logs ∨ logs.heap.bufs.length ≤ id
  bufs : logs.heap.bufs.length ≤ logs'.heap.bufs.length
  dropped : ∃ dropped, logs'.heap.frees = logs.heap.frees ++ dropped ∧
    ∀ id ∈ dropped, id < logs'.heap.bufs.length ∧ id ∉ held logs'

/-- Nothing has been added yet. -/
theorem Grows.refl (logs : Logs) : Grows logs logs :=
  ⟨List.prefix_rfl, fun _ ↦ .inl, le_rfl, [], by simp, by simp⟩

/-- What two steps add one after the other. -/
theorem Grows.trans (h : Grows logs logs') (h' : Grows logs' logs'') : Grows logs logs'' where
  kept := h.kept.trans h'.kept
  fresh id hid := by
    rcases h'.fresh id hid with hheld | hnew
    · exact h.fresh id hheld
    · exact .inr (h.bufs.trans hnew)
  bufs := h.bufs.trans h'.bufs
  dropped := by
    obtain ⟨dropped, hfrees, hdropped⟩ := h.dropped
    obtain ⟨dropped', hfrees', hdropped'⟩ := h'.dropped
    refine ⟨dropped ++ dropped', by rw [hfrees', hfrees, List.append_assoc], fun id hid ↦ ?_⟩
    rcases List.mem_append.mp hid with hold | hnew
    · obtain ⟨hlt, hnot⟩ := hdropped id hold
      refine ⟨hlt.trans_le h'.bufs, fun hheld ↦ ?_⟩
      rcases h'.fresh id hheld with hbefore | hbeyond
      · exact hnot hbefore
      · exact absurd hlt (Nat.not_lt.mpr hbeyond)
    · exact hdropped' id hnew

/-- `dlog` keeps the logs stored, and frees none of them. -/
theorem Stored.dlog (h : Stored logs) (env : LogEnv) (lvl : LogLvl) (mesg : List UInt8) :
    Stored (dlog env lvl mesg logs).2 ∧ Grows logs (dlog env lvl mesg logs).2 := by
  have hlines : (logs.heap.alloc (printbuf (logLine env.ms lvl mesg))).2.Lines := by
    intro buf hbuf
    rcases List.mem_append.mp hbuf with hold | hnew
    · exact h.lines buf hold
    · rw [List.mem_singleton.mp hnew]
      exact isLine_printbuf ..
  have hbufs : (logs.heap.alloc (printbuf (logLine env.ms lvl mesg))).2.bufs.length =
      logs.heap.bufs.length + 1 := by
    simp [Heap.alloc]
  have hcases := dlog_cases env lvl mesg h.slots
  generalize Logger.dlog env lvl mesg logs = result at hcases ⊢
  cases hcases with
  | malloc => exact ⟨h, .refl logs⟩
  | accepted flag _ hroom =>
      have hheld : held ⟨flag, slotsOf (held logs ++ [logs.heap.bufs.length]),
          (logs.heap.alloc (printbuf (logLine env.ms lvl mesg))).2⟩ =
            held logs ++ [logs.heap.bufs.length] := held_mk ..
      constructor
      · refine ⟨by rw [hheld], ?_, fun id hid ↦ ?_, hlines⟩
        · rw [hheld, List.length_append]
          exact hroom
        rw [hheld] at hid
        rw [hbufs]
        rcases List.mem_append.mp hid with hold | hnew
        · exact Nat.lt_succ_of_lt (h.below id hold)
        · rw [List.mem_singleton.mp hnew]
          exact Nat.lt_succ_self _
      · refine ⟨by rw [hheld]; exact List.prefix_append _ _, fun id hid ↦ ?_,
          by rw [hbufs]; exact Nat.le_succ _, [], by simp [Heap.alloc], by simp⟩
        rw [hheld] at hid
        rcases List.mem_append.mp hid with hold | hnew
        · exact .inl hold
        · exact .inr (List.mem_singleton.mp hnew).ge
  | full flag =>
      refine ⟨⟨h.slots, h.room, fun id hid ↦ ?_, hlines⟩, ⟨List.prefix_rfl, fun _ ↦ .inl, ?_,
        [logs.heap.bufs.length], by simp [Heap.alloc, Heap.free], fun id hid ↦ ?_⟩⟩
      · exact (h.below id hid).trans_le (by simp [Heap.free, hbufs])
      · simp [Heap.free, hbufs]
      · rw [List.mem_singleton.mp hid]
        refine ⟨by simp [Heap.free, hbufs], fun hheld ↦ ?_⟩
        exact absurd (h.below _ hheld) (lt_irrefl _)

/-- A call of `dlog` returns `DT_ERR_OK` exactly when its buffer is in a slot afterwards. -/
theorem Stored.dlog_ok_iff (h : Stored logs) (env : LogEnv) (lvl : LogLvl) (mesg : List UInt8) :
    (Logger.dlog env lvl mesg logs).1 = .ok ↔
      logs.heap.bufs.length ∈ held (Logger.dlog env lvl mesg logs).2 := by
  have hnew : logs.heap.bufs.length ∉ held logs := fun hmem ↦
    absurd (h.below _ hmem) (lt_irrefl _)
  have hcases := dlog_cases env lvl mesg h.slots
  generalize Logger.dlog env lvl mesg logs = result at hcases ⊢
  cases hcases with
  | malloc => exact iff_of_false (by simp) hnew
  | accepted flag =>
      rw [held_mk]
      exact iff_of_true rfl (List.mem_append_right _ (List.mem_singleton_self _))
  | full flag => exact iff_of_false (by simp) hnew

/-- The slots hold lines as `dlog` leaves them, each in a buffer of its own. -/
structure LinesStored (logs : Logs) : Prop where
  stored : Stored logs
  nodup : (held logs).Nodup
  whole : ∀ id ∈ held logs, Whole (logs.heap.bufs.getD id [])

/-- There are no lines at first. -/
theorem linesStored_init : LinesStored {} := by
  have hheld : held {} = [] := rfl
  exact ⟨stored_init, hheld ▸ .nil, fun id hid ↦ absurd (hheld ▸ hid) List.not_mem_nil⟩

/-- `dlog` keeps this at every time in 64 bits. -/
theorem LinesStored.dlog (h : LinesStored logs) {env : LogEnv} (hms : env.ms < 2 ^ 64)
    (lvl : LogLvl) (mesg : List UInt8) : LinesStored (dlog env lvl mesg logs).2 := by
  have hstored := (h.stored.dlog env lvl mesg).1
  have hcases := dlog_cases env lvl mesg h.stored.slots
  have hbefore : ∀ buf, ∀ id ∈ held logs, Whole ((logs.heap.alloc buf).2.bufs.getD id []) := by
    intro buf id hid
    rw [Heap.alloc, List.getD_append _ _ _ _ (h.stored.below id hid)]
    exact h.whole id hid
  generalize Logger.dlog env lvl mesg logs = result at hcases hstored ⊢
  cases hcases with
  | malloc => exact h
  | full flag => exact ⟨hstored, h.nodup, hbefore _⟩
  | accepted flag =>
      refine ⟨hstored, ?_, ?_⟩ <;> rw [held_mk]
      · rw [List.nodup_append]
        refine ⟨h.nodup, List.nodup_singleton _, fun id hid other hother ↦ ?_⟩
        rw [List.mem_singleton.mp hother]
        exact (h.stored.below id hid).ne
      · intro id hid
        rcases List.mem_append.mp hid with hold | hnew
        · exact hbefore _ id hold
        · obtain rfl := List.mem_singleton.mp hnew
          have hlast : ∀ buf, (logs.heap.alloc buf).2.bufs.getD logs.heap.bufs.length [] = buf := by
            simp [Heap.alloc]
          show Whole ((logs.heap.alloc _).2.bufs.getD logs.heap.bufs.length [])
          rw [hlast]
          exact whole_logLine lvl mesg hms

/-- `free_logs` frees the buffers in the slots, and leaves them there. -/
theorem freeLogs_eq (logs : Logs) :
    freeLogs logs =
      { logs with heap := { logs.heap with frees := logs.heap.frees ++ held logs } } := by
  have hheap : ∀ (slots : List (Option BufId)) (heap : Heap), slots.foldl Heap.free heap =
      { heap with frees := heap.frees ++ slots.filterMap id } := by
    intro slots
    induction slots with
    | nil => simp
    | cons slot slots ih =>
        intro heap
        rw [List.foldl_cons, ih]
        cases slot <;> simp [Heap.free]
  rw [freeLogs, hheap, held]

end DirtieNode.Logger
