import Mathlib.Algebra.Group.Int.Defs
import Mathlib.Algebra.Group.Nat.Defs
import Mathlib.Data.List.Basic
import Mathlib.Data.List.Infix
import Mathlib.Data.List.TakeWhile
import Mathlib.Tactic.Common

/-!
# C byte objects and terminated strings

A C object of character type is the list of its bytes, in address order, and a pointer into it
is an offset. The functions of `string.h` read such a list from a pointer on. Each of them returns
`none` when it would touch a byte outside the object, which C leaves undefined.

`Holds mem s` says the object starts with the C string `s` and its terminator. The lemmas below
give the meaning of each function on an object that holds a string.
-/

namespace CString

/-- The bytes of a string literal whose characters are ASCII. -/
def lit (text : String) : List UInt8 :=
  text.toList.map fun c ↦ c.toNat.toUInt8

/-- A property of the 256 bytes is decided on each of them. -/
theorem forall_byte {p : UInt8 → Prop} (h : ∀ n < 256, p (UInt8.ofNat n)) (b : UInt8) : p b := by
  have hb := h b.toNat b.toNat_lt
  rwa [UInt8.ofNat_toNat] at hb

/-- A C string value: bytes without a terminator among them, in a 32-bit address space whose
largest memory is far below this bound. -/
structure CStr where
  bytes : List UInt8
  nul_free : 0 ∉ bytes
  fits : bytes.length < 2 ^ 30

/-- A list of bytes as a C string value. -/
def CStr.ofBytes (bytes : List UInt8) (nul_free : 0 ∉ bytes := by decide)
    (fits : bytes.length < 2 ^ 30 := by decide) : CStr :=
  ⟨bytes, nul_free, fits⟩

/-- A C string of some bytes has these bytes. -/
@[simp] theorem CStr.ofBytes_bytes (bytes : List UInt8) (h : 0 ∉ bytes)
    (hfits : bytes.length < 2 ^ 30) : (CStr.ofBytes bytes h hfits).bytes = bytes := rfl

/-- A C string of one repeated byte. -/
def CStr.replicate (count : Nat) (b : UInt8) (hb : b ≠ 0 := by decide)
    (fits : count < 2 ^ 30 := by decide) : CStr :=
  ⟨List.replicate count b, by simp [List.mem_replicate, hb.symm], by simpa using fits⟩

/-- The bytes of a C string of one repeated byte. -/
@[simp] theorem CStr.replicate_bytes (count : Nat) (b : UInt8) (hb : b ≠ 0)
    (hfits : count < 2 ^ 30) : (CStr.replicate count b hb hfits).bytes = List.replicate count b :=
  rfl

/-- The unsigned 32-bit value of an integer, the result of `size_t` arithmetic. -/
def sizeT (value : Int) : Nat :=
  (value % 2 ^ 32).toNat

/-! ## `strlen`, `strchr`, `memcpy` -/

/-- `strlen`. -/
def strlen : List UInt8 → Option Nat
  | [] => none
  | b :: rest => if b = 0 then some 0 else (strlen rest).map (· + 1)

/-- `strchr`: the offset of the first occurrence of the byte, or `NULL`. The terminator counts as
part of the string. -/
def strchr (mem : List UInt8) (c : UInt8) : Option (Option Nat) :=
  match mem with
  | [] => none
  | b :: rest =>
      if b = c then some (some 0)
      else if b = 0 then some none
      else (strchr rest c).map (Option.map (· + 1))

/-- `memcpy` into an object at an offset. -/
def memcpy (mem : List UInt8) (dst : Nat) (src : List UInt8) : Option (List UInt8) :=
  if dst + src.length ≤ mem.length then
    some (mem.take dst ++ src ++ mem.drop (dst + src.length))
  else none

/-- `memset` of the first `count` bytes of an object. -/
def memset (mem : List UInt8) (value : UInt8) (count : Nat) : Option (List UInt8) :=
  memcpy mem 0 (List.replicate count value)

/-- The bytes a `memcpy` of this length reads from an object. -/
def load (mem : List UInt8) (src count : Nat) : Option (List UInt8) :=
  if src + count ≤ mem.length then some ((mem.drop src).take count) else none

/-- The C string at the start of an object. -/
def get (mem : List UInt8) : Option (List UInt8) :=
  (strlen mem).map mem.take

/-! ## Objects that hold a string -/

/-- The object starts with the string `s`, followed by a terminator. -/
def Holds (mem s : List UInt8) : Prop :=
  ∃ rest, mem = s ++ 0 :: rest ∧ 0 ∉ s

/-- A string has no terminator inside. -/
theorem Holds.nul_free {mem s : List UInt8} (h : Holds mem s) : 0 ∉ s := by
  obtain ⟨_, _, hs⟩ := h
  exact hs

/-- A held string is shorter than its object. -/
theorem Holds.length_lt {mem s : List UInt8} (h : Holds mem s) : s.length < mem.length := by
  obtain ⟨rest, rfl, _⟩ := h
  simp

/-- The bytes of a held string. -/
theorem Holds.take_eq {mem s : List UInt8} (h : Holds mem s) : mem.take s.length = s := by
  obtain ⟨rest, rfl, _⟩ := h
  simp

/-- A pointer into a held string points at a held string. -/
theorem Holds.drop {mem p s : List UInt8} (h : Holds mem (p ++ s)) :
    Holds (mem.drop p.length) s := by
  obtain ⟨rest, rfl, hs⟩ := h
  refine ⟨rest, by simp [List.append_assoc], ?_⟩
  intro hmem
  exact hs (List.mem_append_right p hmem)

/-- Bytes with a terminator behind them hold the string. -/
theorem holds_append {s rest : List UInt8} (h : 0 ∉ s) : Holds (s ++ 0 :: rest) s :=
  ⟨rest, rfl, h⟩

/-- A string in front of cleared space. -/
theorem holds_replicate {s : List UInt8} (count : Nat) (h : 0 ∉ s) (hcount : 0 < count) :
    Holds (s ++ List.replicate count 0) s := by
  obtain ⟨rest, rfl⟩ := Nat.exists_eq_add_of_lt hcount
  exact ⟨List.replicate rest 0, by simp [List.replicate_succ], h⟩

/-- `strlen` counts the bytes of the string. -/
theorem strlen_holds {mem s : List UInt8} (h : Holds mem s) : strlen mem = some s.length := by
  obtain ⟨rest, rfl, hs⟩ := h
  induction s with
  | nil => simp [strlen]
  | cons b s ih =>
      have hb : b ≠ 0 := fun heq ↦ hs (by simp [heq])
      have hrec := ih (fun hmem ↦ hs (List.mem_cons_of_mem b hmem))
      simp [strlen, hb, hrec]

/-- `strlen` stops in the object exactly when the object has a terminator. -/
theorem strlen_eq_none_iff {mem : List UInt8} : strlen mem = none ↔ 0 ∉ mem := by
  induction mem with
  | nil => simp [strlen]
  | cons b rest ih =>
      by_cases hb : b = 0
      · simp [strlen, hb]
      · simp [strlen, hb, ih, Ne.symm hb]

/-- An object with a terminator holds the string before its first one. -/
theorem holds_takeWhile {mem : List UInt8} (h : 0 ∈ mem) : Holds mem (mem.takeWhile (· != 0)) := by
  induction mem with
  | nil => simp at h
  | cons b rest ih =>
      by_cases hb : b = 0
      · exact ⟨rest, by simp [hb], by simp [hb]⟩
      · obtain ⟨tail, htail, hnul⟩ := ih (by simpa [Ne.symm hb] using h)
        refine ⟨tail, ?_, ?_⟩
        · simp [hb, ← htail]
        · simp [hb, hnul, Ne.symm hb]

/-- Memory with a terminator holds a string. -/
theorem exists_holds {mem : List UInt8} (h : 0 ∈ mem) : ∃ s, Holds mem s :=
  ⟨_, holds_takeWhile h⟩

/-- Memory that holds a string has a terminator. -/
theorem Holds.zero_mem {mem s : List UInt8} (h : Holds mem s) : 0 ∈ mem := by
  obtain ⟨rest, rfl, _⟩ := h
  simp

/-- An object holds at most one string. -/
theorem Holds.unique {mem s t : List UInt8} (hs : Holds mem s) (ht : Holds mem t) : s = t := by
  have hlen : s.length = t.length :=
    Option.some.inj ((strlen_holds hs).symm.trans (strlen_holds ht))
  calc s = mem.take s.length := hs.take_eq.symm
    _ = mem.take t.length := by rw [hlen]
    _ = t := ht.take_eq

/-- The string that memory holds is read from it. -/
theorem get_holds {mem s : List UInt8} (h : Holds mem s) : get mem = some s := by
  simp [get, strlen_holds h, h.take_eq]

/-- A string is read from memory exactly when the memory holds it. -/
theorem get_eq_some_iff {mem s : List UInt8} : get mem = some s ↔ Holds mem s := by
  constructor
  · intro h
    by_cases hmem : 0 ∈ mem
    · obtain ⟨t, ht⟩ := exists_holds hmem
      have heq : t = s := Option.some.inj ((get_holds ht).symm.trans h)
      exact heq ▸ ht
    · simp [get, strlen_eq_none_iff.mpr hmem] at h
  · exact get_holds

/-- No string is read from memory without a terminator. -/
theorem get_eq_none_iff {mem : List UInt8} : get mem = none ↔ 0 ∉ mem := by
  rw [get, Option.map_eq_none_iff, strlen_eq_none_iff]

/-- Searching for the terminator finds the end of the string. -/
theorem strchr_zero_holds {mem s : List UInt8} (h : Holds mem s) :
    strchr mem 0 = some (some s.length) := by
  obtain ⟨rest, rfl, hs⟩ := h
  induction s with
  | nil => simp [strchr]
  | cons b s ih =>
      have hb : b ≠ 0 := fun heq ↦ hs (by simp [heq])
      have hrec := ih (fun hmem ↦ hs (List.mem_cons_of_mem b hmem))
      simp [strchr, hb, hrec]

/-- Searching for a terminator that is not there leaves the object. -/
theorem strchr_zero_eq_none {mem : List UInt8} (h : 0 ∉ mem) : strchr mem 0 = none := by
  induction mem with
  | nil => rfl
  | cons b rest ih =>
      have hb : b ≠ 0 := fun heq ↦ h (by simp [heq])
      have hrec := ih (fun hmem ↦ h (List.mem_cons_of_mem b hmem))
      simp [strchr, hb, hrec]

/-- A search that comes back empty has seen the terminator. -/
theorem zero_mem_of_strchr_null {mem : List UInt8} {c : UInt8} (h : strchr mem c = some none) :
    0 ∈ mem := by
  induction mem with
  | nil => simp [strchr] at h
  | cons b rest ih =>
      unfold strchr at h
      split at h
      · simp at h
      · split at h
        · simp_all
        · simp only [Option.map_eq_some_iff, Option.map_eq_none_iff, exists_eq_right] at h
          exact List.mem_cons_of_mem b (ih h)

/-- The first occurrence of a byte after a stretch without it. -/
theorem strchr_append {mem s : List UInt8} {c : UInt8} (hc : c ∉ s) (hs : 0 ∉ s) :
    strchr (s ++ c :: mem) c = some (some s.length) := by
  induction s with
  | nil => simp [strchr]
  | cons b s ih =>
      have hbc : b ≠ c := fun heq ↦ hc (by simp [heq])
      have hb : b ≠ 0 := fun heq ↦ hs (by simp [heq])
      have hrec := ih (fun hmem ↦ hc (List.mem_cons_of_mem b hmem))
        (fun hmem ↦ hs (List.mem_cons_of_mem b hmem))
      simp [strchr, hbc, hb, hrec]

/-- What `strchr` finds in a held string. -/
theorem strchr_holds {mem s : List UInt8} {c : UInt8} (h : Holds mem s) (hc : c ≠ 0) :
    strchr mem c =
      some (if c ∈ s then some (s.takeWhile (· != c)).length else none) := by
  obtain ⟨rest, rfl, hnul⟩ := h
  induction s with
  | nil => simp [strchr, hc.symm]
  | cons b s ih =>
      have hb : b ≠ 0 := fun heq ↦ hnul (by simp [heq])
      have hrec := ih (fun hmem ↦ hnul (List.mem_cons_of_mem b hmem))
      by_cases hbc : b = c
      · simp [strchr, hbc]
      · have hcb : c ≠ b := Ne.symm hbc
        simp only [List.cons_append, strchr, hbc, hb, if_false, hrec, List.mem_cons, hcb, false_or]
        split <;> simp [hbc]

/-! ## Copies -/

/-- A copy that fits replaces the bytes in its place. -/
theorem memcpy_eq_some {mem src : List UInt8} {dst : Nat} (h : dst + src.length ≤ mem.length) :
    memcpy mem dst src = some (mem.take dst ++ src ++ mem.drop (dst + src.length)) := by
  simp [memcpy, h]

/-- A copy fails exactly when it goes past the end. -/
theorem memcpy_eq_none_iff {mem src : List UInt8} {dst : Nat} :
    memcpy mem dst src = none ↔ mem.length < dst + src.length := by
  simp [memcpy]

/-- A copy keeps the size of the object it writes. -/
theorem memcpy_length {mem src mem' : List UInt8} {dst : Nat} (h : memcpy mem dst src = some mem') :
    mem'.length = mem.length := by
  unfold memcpy at h
  split at h
  · obtain rfl := Option.some.inj h
    simp only [List.length_append, List.length_take, List.length_drop]
    omega
  · simp at h

/-- The bytes of an object after a copy into it. -/
theorem memcpy_getElem? {mem src mem' : List UInt8} {dst : Nat} (h : memcpy mem dst src = some mem')
    (i : Nat) :
    mem'[i]? = if dst ≤ i ∧ i < dst + src.length then src[i - dst]? else mem[i]? := by
  unfold memcpy at h
  split at h
  · rename_i hfits
    obtain rfl := Option.some.inj h
    have hdst : (mem.take dst).length = dst := by simp; omega
    rw [List.append_assoc]
    by_cases hbefore : i < dst
    · rw [List.getElem?_append_left (by omega), List.getElem?_take_of_lt hbefore,
        if_neg (by omega)]
    · rw [List.getElem?_append_right (by omega), hdst]
      by_cases hinside : i < dst + src.length
      · rw [List.getElem?_append_left (by omega), if_pos (by omega)]
      · rw [List.getElem?_append_right (by omega), List.getElem?_drop, if_neg (by omega)]
        congr 1
        omega
  · simp at h

/-- A copy leaves the bytes in front of it alone. -/
theorem memcpy_take {mem src mem' : List UInt8} {dst count : Nat}
    (h : memcpy mem dst src = some mem') (hcount : count ≤ dst) :
    mem'.take count = mem.take count := by
  refine List.ext_getElem? fun i ↦ ?_
  rw [List.getElem?_take, List.getElem?_take]
  split
  · rw [memcpy_getElem? h, if_neg (by omega)]
  · rfl

/-- Up to the end of a copy are the bytes in front of it and those that were copied. -/
theorem memcpy_take_end {mem src mem' : List UInt8} {dst : Nat}
    (h : memcpy mem dst src = some mem') : mem'.take (dst + src.length) = mem.take dst ++ src := by
  have hroom : dst + src.length ≤ mem.length := by
    by_contra hlong
    rw [memcpy_eq_none_iff.mpr (Nat.lt_of_not_le hlong)] at h
    simp at h
  have hlen : (mem.take dst ++ src).length = dst + src.length := by
    rw [List.length_append, List.length_take]
    omega
  rw [memcpy_eq_some hroom, Option.some.injEq] at h
  rw [← h, ← hlen, List.take_left]

/-- A copy leaves the bytes behind it alone. -/
theorem memcpy_drop {mem src mem' : List UInt8} {dst start : Nat}
    (h : memcpy mem dst src = some mem') (hstart : dst + src.length ≤ start) :
    mem'.drop start = mem.drop start := by
  refine List.ext_getElem? fun i ↦ ?_
  rw [List.getElem?_drop, List.getElem?_drop, memcpy_getElem? h, if_neg (by omega)]

/-- What has been copied is where it was copied to. -/
theorem memcpy_load {mem src mem' : List UInt8} {dst : Nat} (h : memcpy mem dst src = some mem') :
    (mem'.drop dst).take src.length = src := by
  refine List.ext_getElem? fun i ↦ ?_
  rw [List.getElem?_take]
  split
  · rw [List.getElem?_drop, memcpy_getElem? h, if_pos (by omega), Nat.add_sub_cancel_left]
  · rw [List.getElem?_eq_none (by omega)]

/-- Two copies in a row are one copy. -/
theorem memcpy_memcpy (mem first second : List UInt8) (dst : Nat) :
    ((memcpy mem dst first).bind fun mem ↦ memcpy mem (dst + first.length) second) =
      memcpy mem dst (first ++ second) := by
  cases hfirst : memcpy mem dst first with
  | none =>
      rw [memcpy_eq_none_iff] at hfirst
      rw [Option.bind_none, eq_comm, memcpy_eq_none_iff, List.length_append]
      omega
  | some mid =>
      have hmid := memcpy_length hfirst
      rw [Option.bind_some]
      cases hsecond : memcpy mid (dst + first.length) second with
      | none =>
          rw [memcpy_eq_none_iff] at hsecond
          rw [eq_comm, memcpy_eq_none_iff, List.length_append]
          omega
      | some last =>
          cases hwhole : memcpy mem dst (first ++ second) with
          | none =>
              rw [memcpy_eq_none_iff, List.length_append] at hwhole
              have hroom := memcpy_eq_none_iff.not.mp (hsecond ▸ Option.some_ne_none last)
              omega
          | some whole =>
              refine congrArg some (List.ext_getElem? fun i ↦ ?_)
              rw [memcpy_getElem? hsecond, memcpy_getElem? hfirst, memcpy_getElem? hwhole,
                List.length_append, List.getElem?_append]
              by_cases hfront : i < dst + first.length
              · rw [if_neg (by omega)]
                by_cases hdst : dst ≤ i
                · rw [if_pos (by omega), if_pos (by omega), if_pos (by omega)]
                · rw [if_neg (by omega), if_neg (by omega)]
              · by_cases hback : i < dst + first.length + second.length
                · rw [if_pos (by omega), if_pos (by omega), if_neg (by omega)]
                  congr 1
                  omega
                · rw [if_neg (by omega), if_neg (by omega), if_neg (by omega)]

/-- Overwriting the middle of an object that is given in three pieces. -/
theorem memcpy_append (pre old post src : List UInt8) (h : src.length = old.length) :
    memcpy (pre ++ old ++ post) pre.length src = some (pre ++ src ++ post) := by
  have hdrop : (pre ++ old ++ post).drop (pre.length + src.length) = post := by
    rw [h, ← List.length_append, List.drop_left]
  have htake : (pre ++ old ++ post).take pre.length = pre := by
    rw [List.append_assoc, List.take_left]
  rw [memcpy_eq_some (by simp [h]), hdrop, htake]

/-- Filling the start of the free space behind a prefix. -/
theorem memcpy_replicate (pre src : List UInt8) (count : Nat) (value : UInt8)
    (h : src.length ≤ count) :
    memcpy (pre ++ List.replicate count value) pre.length src =
      some (pre ++ src ++ List.replicate (count - src.length) value) := by
  have hsplit : pre ++ List.replicate count value =
      pre ++ List.replicate src.length value ++ List.replicate (count - src.length) value := by
    rw [List.append_assoc, List.replicate_append_replicate, Nat.add_sub_cancel' h]
  rw [hsplit, memcpy_append _ _ _ _ (by simp)]

/-- `memset` of a whole object leaves one byte everywhere. -/
theorem memset_eq_some {mem : List UInt8} {value : UInt8} {count : Nat} (h : mem.length = count) :
    memset mem value count = some (List.replicate count value) := by
  simp [memset, memcpy, h]

/-- A stretch inside memory can be read. -/
theorem load_eq_some {mem : List UInt8} {src count : Nat} (h : src + count ≤ mem.length) :
    load mem src count = some ((mem.drop src).take count) := by
  simp [load, h]

/-! ## Strings behind an offset -/

/-- The bytes from an offset up to the next terminator. -/
def strAt (mem : List UInt8) (offset : Nat) : List UInt8 :=
  (mem.drop offset).takeWhile (· != 0)

/-- The string at the start of memory is the one that it holds. -/
theorem strAt_holds {mem s : List UInt8} (h : Holds mem s) : strAt mem 0 = s :=
  (holds_takeWhile h.zero_mem).unique h

/-- What becomes of the string at an offset when terminated bytes are copied to `dst`. -/
def overlaid (dst : Nat) (src : List UInt8) (offset : Nat) (s : List UInt8) : List UInt8 :=
  if dst + src.length ≤ offset then s
  else if dst ≤ offset then strAt src (offset - dst)
  else if offset + s.length < dst then s
  else s.take (dst - offset) ++ strAt src 0

/-- What is behind a terminator does not matter to the string in front of it. -/
theorem takeWhile_append_of_mem {front : List UInt8} (h : 0 ∈ front) (back : List UInt8) :
    (front ++ back).takeWhile (· != 0) = front.takeWhile (· != 0) := by
  rw [List.takeWhile_append, if_neg]
  intro hlength
  have hall := List.takeWhile_eq_self_iff.mp ((List.takeWhile_prefix _).eq_of_length hlength)
  exact absurd (hall 0 h) (by simp)

/-- After a copy of terminated bytes, each string depends on the old one at its place alone. -/
theorem strAt_memcpy {mem src mem' : List UInt8} {dst : Nat} (h : memcpy mem dst src = some mem')
    (hsrc : src.getLast? = some 0) (offset : Nat) :
    strAt mem' offset = overlaid dst src offset (strAt mem offset) := by
  have hroom : dst + src.length ≤ mem.length := by
    by_contra hlong
    rw [memcpy_eq_none_iff.mpr (Nat.lt_of_not_le hlong)] at h
    exact absurd h (by simp)
  unfold overlaid
  split
  · rename_i hbehind
    rw [strAt, memcpy_drop h hbehind]
    rfl
  · rename_i hnotBehind
    rw [memcpy_eq_some hroom, List.append_assoc] at h
    obtain rfl := Option.some.inj h
    have hdst : (mem.take dst).length = dst := by
      rw [List.length_take]
      omega
    split
    · rename_i hinside
      have hmem : 0 ∈ src.drop (offset - dst) := by
        obtain ⟨body, rfl⟩ := List.getLast?_eq_some_iff.mp hsrc
        rw [List.length_append, List.length_singleton] at hnotBehind
        rw [List.drop_append_of_le_length (by omega)]
        exact List.mem_append_right _ (List.mem_singleton_self 0)
      rw [strAt, List.drop_append, List.drop_eq_nil_of_le (by omega), hdst, List.nil_append,
        List.drop_append_of_le_length (by omega), takeWhile_append_of_mem hmem]
      rfl
    · -- the bytes between the offset and the copy stay, and the old string may end among them
      have hmem : 0 ∈ src := List.mem_of_getLast? hsrc
      obtain ⟨front, hfront, hold⟩ : ∃ front, front.length = dst - offset ∧
          mem.drop offset = front ++ mem.drop dst := by
        refine ⟨(mem.drop offset).take (dst - offset), ?_, ?_⟩
        · rw [List.length_take, List.length_drop]
          omega
        · conv_lhs => rw [← List.take_append_drop (dst - offset) (mem.drop offset)]
          rw [List.drop_drop, show offset + (dst - offset) = dst by omega]
      have hnew : (mem.take dst ++ (src ++ mem.drop (dst + src.length))).drop offset =
          front ++ (src ++ mem.drop (dst + src.length)) := by
        rw [List.drop_append_of_le_length (by omega), List.drop_take, hold, ← hfront,
          List.take_left]
      rw [strAt, strAt, hnew, hold]
      by_cases hzero : 0 ∈ front
      · have hshort : (front.takeWhile (· != 0)).length < front.length := by
          refine Nat.lt_of_le_of_ne (List.takeWhile_prefix _).length_le fun hlength ↦ ?_
          have hall := List.takeWhile_eq_self_iff.mp
            ((List.takeWhile_prefix _).eq_of_length hlength)
          exact absurd (hall 0 hzero) (by simp)
        rw [takeWhile_append_of_mem hzero, takeWhile_append_of_mem hzero, if_pos (by omega)]
      · have hall : ∀ b ∈ front, (b != 0) = true := by
          intro b hb
          have hne : b ≠ 0 := fun heq ↦ hzero (heq ▸ hb)
          simpa using hne
        rw [List.takeWhile_append_of_pos hall, List.takeWhile_append_of_pos hall,
          takeWhile_append_of_mem hmem, if_neg (by rw [List.length_append]; omega), ← hfront,
          List.take_left]
        rfl

end CString
