import Mathlib.Algebra.GroupWithZero.Nat
import Mathlib.Data.List.Basic
import Mathlib.Order.Nat
import Mathlib.Tactic.Common

/-!
# Buffers that grow in pieces

A buffer of whole pieces that is reallocated when it runs out of room. Every allocation can fail,
and gives memory with arbitrary contents. `Reserved` says that the buffer holds a text, has the
fewest pieces with a given room, and has used one allocation for each of them; `reserve` and `put`
keep it.
-/

namespace Growable

variable {α : Type*}

/-- What each allocation gives: nothing, or memory with these contents. -/
abbrev Allocs (α : Type*) := Nat → Option (Nat → α)

/-- Whole pieces of memory, of which the first `size` elements are in use, and the number of
allocations so far. -/
structure Buffer (α : Type*) where
  mem : List α
  pieces : Nat
  calls : Nat
  size : Nat

/-- Pieces are added until they have room. -/
def fit (unit : Nat) [NeZero unit] (size pieces : Nat) : Nat :=
  if unit * pieces < size then fit unit size (pieces + 1) else pieces
termination_by size - unit * pieces
decreasing_by
  have hunit := Nat.pos_of_neZero unit
  rw [Nat.mul_succ]
  omega

variable (unit : Nat) [NeZero unit]

/-- One piece, from the first allocation. -/
def create (allocs : Allocs α) : Option (Buffer α) :=
  (allocs 0).map fun fresh ↦ ⟨(List.range unit).map fresh, 1, 1, 0⟩

/-- Room for `size` elements, if need be from another allocation that keeps what is there. -/
def reserve (allocs : Allocs α) (size : Nat) (b : Buffer α) : Option (Buffer α) :=
  if unit * b.pieces < size then
    (allocs b.calls).map fun fresh ↦
      { b with
        mem := b.mem ++ (List.range (unit * fit unit size b.pieces - b.mem.length)).map fresh
        pieces := fit unit size b.pieces
        calls := b.calls + 1 }
  else some b

/-- One more element, or `none` behind the end of the memory. -/
def put (c : α) (b : Buffer α) : Option (Buffer α) :=
  if b.size < b.mem.length then some { b with mem := b.mem.set b.size c, size := b.size + 1 }
  else none

/-- The fewest pieces, and at least one, with room for `size` elements. -/
def pieces (size : Nat) : Nat :=
  max 1 ((size + (unit - 1)) / unit)

/-- The text is in the buffer, which has no more pieces than the room takes, from as many
allocations. -/
structure Reserved (allocs : Allocs α) (b : Buffer α) (text : List α) (room : Nat) : Prop where
  size : b.size = text.length
  memory : b.mem.length = unit * b.pieces
  written : b.mem.take text.length = text
  pieces : b.pieces = pieces unit room
  calls : b.calls = b.pieces
  succeeded : ∀ k < b.pieces, (allocs k).isSome = true
  fits : text.length ≤ room

/-- One of the allocations behind the first that the room takes fails. -/
def Fails (allocs : Allocs α) (room : Nat) : Prop :=
  ∃ k, 0 < k ∧ k < pieces unit room ∧ allocs k = none

section Pieces

variable {unit}

/-- The pieces have the room. -/
theorem le_pieces (size : Nat) : size ≤ unit * pieces unit size := by
  have hunit := Nat.pos_of_neZero unit
  have hround : size ≤ unit * ((size + (unit - 1)) / unit) := by
    have hdiv := Nat.div_add_mod (size + (unit - 1)) unit
    have hmod := Nat.mod_lt (size + (unit - 1)) hunit
    omega
  exact hround.trans (Nat.mul_le_mul_left _ (Nat.le_max_right _ _))

/-- No fewer pieces have the room. -/
theorem pieces_le {size count : Nat} (hpos : 0 < count) (h : size ≤ unit * count) :
    pieces unit size ≤ count := by
  have hunit := Nat.pos_of_neZero unit
  refine Nat.max_le.mpr ⟨hpos, ?_⟩
  rw [← Nat.lt_succ_iff, Nat.div_lt_iff_lt_mul hunit, Nat.succ_mul, Nat.mul_comm count]
  omega

omit [NeZero unit] in
/-- There is at least one piece. -/
theorem pieces_pos (size : Nat) : 0 < pieces unit size :=
  Nat.le_max_left _ _

/-- More room takes more pieces. -/
theorem pieces_mono {size size' : Nat} (h : size ≤ size') : pieces unit size ≤ pieces unit size' :=
  pieces_le (pieces_pos size') (h.trans (le_pieces size'))

/-- From too few pieces the fewest are found. -/
theorem fit_eq {size count : Nat} (hpos : 0 < count) (h : count ≤ pieces unit size) :
    fit unit size count = pieces unit size := by
  fun_induction fit unit size count with
  | case1 count hlt ih =>
      refine ih (Nat.succ_pos _) ?_
      by_contra hle
      have hsame : count = pieces unit size := by omega
      have hroom := @le_pieces unit _ size
      rw [← hsame] at hroom
      omega
  | case2 count hge => exact Nat.le_antisymm h (pieces_le hpos (Nat.not_lt.mp hge))

/-- An allocation that fails for less room fails for more. -/
theorem Fails.mono {allocs : Allocs α} {room room' : Nat} (h : Fails unit allocs room)
    (hle : room ≤ room') : Fails unit allocs room' := by
  obtain ⟨k, hpos, hlt, hfails⟩ := h
  exact ⟨k, hpos, hlt.trans_le (pieces_mono hle), hfails⟩

end Pieces

section Buffer

variable {unit} {allocs : Allocs α} {b b' : Buffer α} {text : List α} {room : Nat}

/-- The first piece holds the empty text. -/
theorem create_reserved (h : create unit allocs = some b) : Reserved unit allocs b [] 0 := by
  obtain ⟨fresh, hfresh, rfl⟩ := Option.map_eq_some_iff.mp h
  have hpieces : pieces unit 0 = 1 :=
    Nat.le_antisymm (pieces_le Nat.one_pos (Nat.zero_le _)) (pieces_pos 0)
  refine ⟨rfl, by simp, rfl, hpieces.symm, rfl, fun k hk ↦ ?_, Nat.le_refl 0⟩
  obtain rfl : k = 0 := Nat.lt_one_iff.mp hk
  rw [hfresh]
  rfl

/-- More room takes at most one allocation, if it is no more than a piece. -/
theorem reserve_cases (h : Reserved unit allocs b text room) {size : Nat} (hle : room ≤ size)
    (hunit : size ≤ room + unit) :
    (∃ b', reserve unit allocs size b = some b' ∧ Reserved unit allocs b' text size) ∨
      reserve unit allocs size b = none ∧ Fails unit allocs size := by
  have hmono : b.pieces ≤ pieces unit size := h.pieces ▸ pieces_mono hle
  have hpos : 0 < b.pieces := h.pieces ▸ pieces_pos room
  unfold reserve
  split
  · rename_i hlt
    have hmore : pieces unit size = b.pieces + 1 := by
      refine Nat.le_antisymm (pieces_le (Nat.succ_pos _) ?_) ?_
      · have hroom := @le_pieces unit _ room
        rw [← h.pieces] at hroom
        rw [Nat.mul_succ]
        omega
      · by_contra hsame
        have hroom := @le_pieces unit _ size
        rw [show pieces unit size = b.pieces by omega] at hroom
        omega
    rw [fit_eq hpos hmono, hmore]
    cases hcall : allocs b.calls with
    | none =>
        rw [h.calls] at hcall
        exact .inr ⟨rfl, b.pieces, hpos, by omega, hcall⟩
    | some fresh =>
        refine .inl ⟨_, rfl, h.size, ?_, ?_, hmore.symm, congrArg (· + 1) h.calls, fun k hk ↦ ?_,
          h.fits.trans hle⟩
        · simp only [List.length_append, List.length_map, List.length_range, h.memory,
            Nat.mul_succ]
          omega
        · have hlong : text.length ≤ b.mem.length := by
            have hwritten := congrArg List.length h.written
            rw [List.length_take] at hwritten
            omega
          rw [List.take_append_of_le_length hlong, h.written]
        · rcases Nat.lt_succ_iff_lt_or_eq.mp hk with hold | rfl
          · exact h.succeeded k hold
          · rw [← h.calls, hcall]
            rfl
  · rename_i hge
    have hsame : b.pieces = pieces unit size :=
      Nat.le_antisymm hmono (pieces_le hpos (Nat.not_lt.mp hge))
    exact .inl ⟨b, rfl, h.size, h.memory, h.written, hsame, h.calls, h.succeeded, h.fits.trans hle⟩

/-- Room that is reserved can be written to. -/
theorem put_reserved (h : Reserved unit allocs b text room) (c : α) (hroom : text.length < room) :
    ∃ b', put c b = some b' ∧ Reserved unit allocs b' (text ++ [c]) room := by
  have hinside : b.size < b.mem.length := by
    have hpieces := @le_pieces unit _ room
    rw [h.size, h.memory, h.pieces]
    omega
  refine ⟨_, if_pos hinside, ?_, ?_, ?_, h.pieces, h.calls, h.succeeded, ?_⟩
  · simp [h.size]
  · simp [h.memory]
  · rw [h.size] at hinside ⊢
    rw [List.length_append, List.length_singleton, List.take_add_one, List.take_set_of_le
      (Nat.le_refl _), h.written, List.getElem?_set_self hinside]
    rfl
  · rw [List.length_append, List.length_singleton]
    exact hroom

end Buffer

end Growable
