import Mathlib.Data.List.Nodup
import DirtieNode.Logger.Slots

/-!
# Who owns a log buffer

A buffer belongs to a slot until it is freed, and it is freed once. `dlog` keeps this, and
`free_logs` breaks it unless there is nothing to free.
-/

namespace DirtieNode.Logger

open CString

variable {logs logs' : Logs} {ids : List BufId}

/-- These buffers are in the slots, and all the others have been freed. -/
structure Owned (logs : Logs) (ids : List BufId) : Prop where
  /-- the buffers are a prefix of the slots -/
  slots : logs.logdump = slotsOf ids
  room : ids.length ≤ maxLogEntries
  /-- in the order in which they were logged -/
  order : ids.Pairwise (· < ·)
  /-- no slot refers to a freed buffer -/
  live : ∀ id ∈ ids, id < logs.heap.bufs.length ∧ id ∉ logs.heap.frees
  /-- a buffer that has left the slots was freed once -/
  released : ∀ id < logs.heap.bufs.length, id ∉ ids → logs.heap.frees.count id = 1
  /-- nothing else was freed -/
  beyond : ∀ id ∈ logs.heap.frees, id < logs.heap.bufs.length

/-- The slots own the buffers that have not been freed. -/
def LogsOwned (logs : Logs) : Prop :=
  ∃ ids, Owned logs ids

/-- There are no buffers at first. -/
theorem owned_init : Owned {} [] := by
  refine ⟨rfl, Nat.zero_le _, .nil, ?_, ?_, ?_⟩ <;> simp

/-- No buffer is freed twice. -/
theorem Owned.nodup (h : Owned logs ids) : logs.heap.frees.Nodup := by
  refine List.nodup_iff_count_le_one.mpr fun id ↦ ?_
  by_cases hfreed : id ∈ logs.heap.frees
  · exact (h.released id (h.beyond id hfreed) fun hmem ↦ (h.live id hmem).2 hfreed).le
  · rw [List.count_eq_zero_of_not_mem hfreed]
    exact Nat.zero_le 1

/-- The blocks and the calls of `free` are what matters of the heap. -/
theorem Owned.congr (h : Owned logs ids) (hslots : logs'.logdump = logs.logdump)
    (hbufs : logs'.heap.bufs.length = logs.heap.bufs.length)
    (hfrees : logs'.heap.frees = logs.heap.frees) : Owned logs' ids := by
  refine ⟨hslots.trans h.slots, h.room, h.order, ?_, ?_, ?_⟩ <;> rw [hbufs, hfrees]
  · exact h.live
  · exact h.released
  · exact h.beyond

/-! ## `dlog` -/

/-- A buffer that finds a slot belongs to it. -/
theorem Owned.stored {buf : List UInt8} (h : Owned logs ids) (hroom : ids.length < maxLogEntries)
    (hslots : logs'.logdump = slotsOf (ids ++ [logs.heap.bufs.length]))
    (hheap : logs'.heap = (logs.heap.alloc buf).2) :
    Owned logs' (ids ++ [logs.heap.bufs.length]) := by
  have hbufs : logs'.heap.bufs.length = logs.heap.bufs.length + 1 := by simp [hheap, Heap.alloc]
  have hfrees : logs'.heap.frees = logs.heap.frees := by rw [hheap]; rfl
  refine ⟨hslots, by simp; omega, ?_, ?_, ?_, ?_⟩ <;> try rw [hbufs, hfrees]
  · rw [List.pairwise_append]
    refine ⟨h.order, List.pairwise_singleton _ _, fun id hid other hother ↦ ?_⟩
    rw [List.mem_singleton.mp hother]
    exact (h.live id hid).1
  · intro id hid
    rcases List.mem_append.mp hid with hold | hnew
    · exact ⟨Nat.lt_succ_of_lt (h.live id hold).1, (h.live id hold).2⟩
    · rw [List.mem_singleton.mp hnew]
      exact ⟨Nat.lt_succ_self _, fun hfreed ↦ absurd (h.beyond _ hfreed) (lt_irrefl _)⟩
  · intro id hid hnot
    simp only [List.mem_append, List.mem_singleton, not_or] at hnot
    exact h.released id (by omega) hnot.1
  · exact fun id hid ↦ Nat.lt_succ_of_lt (h.beyond id hid)

/-- A buffer that finds no slot is freed. -/
theorem Owned.dropped {buf : List UInt8} (h : Owned logs ids)
    (hslots : logs'.logdump = logs.logdump)
    (hheap : logs'.heap = (logs.heap.alloc buf).2.free (some logs.heap.bufs.length)) :
    Owned logs' ids := by
  have hbufs : logs'.heap.bufs.length = logs.heap.bufs.length + 1 := by
    simp [hheap, Heap.alloc, Heap.free]
  have hfrees : logs'.heap.frees = logs.heap.frees ++ [logs.heap.bufs.length] := by
    rw [hheap]
    rfl
  refine ⟨hslots.trans h.slots, h.room, h.order, ?_, ?_, ?_⟩ <;> rw [hbufs, hfrees]
  · intro id hid
    obtain ⟨hlt, hlive⟩ := h.live id hid
    refine ⟨Nat.lt_succ_of_lt hlt, ?_⟩
    simp only [List.mem_append, List.mem_singleton, not_or]
    exact ⟨hlive, Nat.ne_of_lt hlt⟩
  · intro id hid hnot
    rw [List.count_append]
    by_cases hnew : id = logs.heap.bufs.length
    · have hfresh : logs.heap.frees.count id = 0 :=
        List.count_eq_zero_of_not_mem fun hfreed ↦ Nat.ne_of_lt (h.beyond id hfreed) hnew
      rw [hfresh, hnew, List.count_singleton_self]
    · rw [h.released id (by omega) hnot, List.count_singleton, if_neg (by simpa using Ne.symm hnew)]
  · intro id hid
    rcases List.mem_append.mp hid with hold | hnew
    · exact Nat.lt_succ_of_lt (h.beyond id hold)
    · rw [List.mem_singleton.mp hnew]
      exact Nat.lt_succ_self _

/-- `dlog` keeps the buffers apart, and there is a message in the slots afterwards if it has
memory. -/
theorem Owned.dlog (h : Owned logs ids) (env : LogEnv) (lvl : LogLvl) (mesg : List UInt8) :
    ∃ ids', Owned (dlog env lvl mesg logs).2 ids' ∧
      (ids' = [] ↔ ids = [] ∧ env.mallocOk = false) := by
  have hcases := dlog_cases env lvl mesg h.slots
  generalize Logger.dlog env lvl mesg logs = result at hcases ⊢
  cases hcases with
  | malloc hmalloc => exact ⟨ids, h, by simp [hmalloc]⟩
  | accepted flag hmalloc hroom => exact ⟨_, h.stored hroom rfl rfl, by simp [hmalloc]⟩
  | full flag hmalloc hfull =>
      refine ⟨ids, h.dropped rfl rfl, iff_of_false ?_ (by simp [hmalloc])⟩
      rintro rfl
      simp [maxLogEntries] at hfull

/-- `dlog` keeps the buffers apart. -/
theorem LogsOwned.dlog (h : LogsOwned logs) (env : LogEnv) (lvl : LogLvl) (mesg : List UInt8) :
    LogsOwned (dlog env lvl mesg logs).2 := by
  obtain ⟨ids, howned⟩ := h
  obtain ⟨ids', hafter, _⟩ := howned.dlog env lvl mesg
  exact ⟨ids', hafter⟩

/-! ## Freeing -/

/-- `free_logs` frees the buffers that the slots own. -/
theorem Owned.freeLogs_eq (h : Owned logs ids) :
    freeLogs logs =
      { logs with heap := { logs.heap with frees := logs.heap.frees ++ ids } } := by
  rw [Logger.freeLogs_eq, held_of_slots h.slots]

/-- After `free_logs` the slots own nothing, unless they were free. -/
theorem Owned.freeLogs_iff (h : Owned logs ids) :
    LogsOwned (freeLogs logs) ↔ ids = [] := by
  rw [h.freeLogs_eq]
  constructor
  · rintro ⟨ids', hafter⟩
    obtain rfl : ids' = ids := slotsOf_injective (hafter.slots.symm.trans h.slots)
    cases hids : ids' with
    | nil => rfl
    | cons id rest =>
        have hmem : id ∈ ids' := by simp [hids]
        exact absurd (List.mem_append_right _ hmem) (hafter.live id hmem).2
  · rintro rfl
    exact ⟨[], h.congr rfl rfl (List.append_nil _)⟩

/-- A stray pointer to a log buffer frees what is owned, or what was freed before. -/
theorem Owned.free_iff (h : Owned logs ids) (ptr : Option BufId) :
    LogsOwned { logs with heap := logs.heap.free ptr } ↔ ptr = none := by
  constructor
  · rintro ⟨ids', hafter⟩
    obtain rfl : ids' = ids := slotsOf_injective (hafter.slots.symm.trans h.slots)
    cases ptr with
    | none => rfl
    | some id =>
        have hfreed : id ∈ (logs.heap.free (some id)).frees := by simp [Heap.free]
        have hlt := hafter.beyond id hfreed
        have hnot : id ∉ ids' := fun hmem ↦ (hafter.live id hmem).2 hfreed
        have honce := hafter.released id hlt hnot
        have hbefore := h.released id hlt hnot
        simp [Heap.free, List.count_append, hbefore] at honce
  · rintro rfl
    exact ⟨ids, h.congr rfl rfl (List.append_nil _)⟩

end DirtieNode.Logger
