import DirtieNode.Flashmem.Read

/-!
# Items of a reachable store

A key ends at an `=` that has a byte of the key in front of it, and `escChars` puts a backslash in
front of every other one. `scan` reads a store byte by byte and fails at a second end of a key in
one item. Every store that `write` leaves behind passes it (`itemized_of_reachable`), so the text
under a nonempty key contains no other key.
-/

namespace DirtieNode.Flashmem

open CString Transition

/-- What has been read of an item: whether a key has ended in it, and whether the last byte can be
the last one of a key. -/
structure ItemScan where
  keyed : Bool
  inKey : Bool

/-- Read one more byte. -/
def ItemScan.next (state : ItemScan) (b : UInt8) : Option ItemScan :=
  if b = comma then some ⟨false, false⟩
  else if b = equals ∧ state.inKey then if state.keyed then none else some ⟨true, false⟩
  else some ⟨state.keyed, !isSpecial b⟩

/-- Read a stretch of the store. -/
def scan : ItemScan → List UInt8 → Option ItemScan
  | state, [] => some state
  | state, b :: rest => (state.next b).bind (scan · rest)

/-- At most one key ends in each item of the store. -/
def Itemized (content : List UInt8) : Prop :=
  (scan ⟨false, false⟩ content).isSome

section Scan

variable {state state' : ItemScan} {key : CStr}

/-- A text is scanned piece by piece. -/
theorem scan_append (state : ItemScan) (s u : List UInt8) :
    scan state (s ++ u) = (scan state s).bind (scan · u) := by
  induction s generalizing state with
  | nil => rfl
  | cons b s ih =>
      simp only [List.cons_append, scan, Option.bind_assoc]
      exact Option.bind_congr fun next _ ↦ ih next

/-- A comma starts an item, whatever came before. -/
theorem scan_comma (state : ItemScan) (s : List UInt8) :
    scan state (comma :: s) = scan ⟨false, false⟩ s := by
  simp [scan, ItemScan.next]

/-- What follows an item can be read from any state. -/
theorem scan_rest {rest : List UInt8} (hrest : itemText rest = []) (state state' : ItemScan)
    (h : (scan state rest).isSome) : (scan state' rest).isSome := by
  cases rest with
  | nil => rfl
  | cons b rest =>
      have hb : b = comma := by
        by_contra hne
        simp [itemText, hne] at hrest
      rw [hb, scan_comma] at h ⊢
      exact h

/-- No key ends in an escaped value. -/
theorem scan_escChars (state : ItemScan) (val : List UInt8) :
    (scan state (escChars val)).isSome := by
  induction val generalizing state with
  | nil => rfl
  | cons c rest ih =>
      unfold escChars
      split
      · have hslash : state.next backslash = some ⟨state.keyed, false⟩ := by
          simp [ItemScan.next, isSpecial]
        have hnext : ∃ next, ItemScan.next ⟨state.keyed, false⟩ c = some next := by
          unfold ItemScan.next
          split <;> simp
        obtain ⟨next, hnext⟩ := hnext
        simpa [scan, hslash, hnext] using ih next
      · rename_i hplain
        have hc : c ≠ comma ∧ c ≠ equals := by
          constructor <;> intro heq <;> simp [heq, isSpecial] at hplain
        simpa [scan, ItemScan.next, hc] using ih _

/-- Inside an item a key that has ended stays ended. -/
theorem scan_keyed {s : List UInt8} (hcomma : comma ∉ s) (hkeyed : state.keyed)
    (h : scan state s = some state') : state'.keyed := by
  induction s generalizing state with
  | nil =>
      obtain rfl := Option.some.inj h
      exact hkeyed
  | cons b s ih =>
      simp only [List.mem_cons, not_or] at hcomma
      obtain ⟨next, hnext, hrest⟩ := Option.bind_eq_some_iff.mp h
      refine ih hcomma.2 ?_ hrest
      unfold ItemScan.next at hnext
      rw [if_neg (Ne.symm hcomma.1), hkeyed] at hnext
      split at hnext
      · simp at hnext
      · obtain rfl := Option.some.inj hnext
        rfl

/-- Plain bytes are those of a key or a value. -/
theorem scan_plain (state : ItemScan) {k : List UInt8} (hk : ∀ b ∈ k, isSpecial b = false)
    (hne : k ≠ []) :
    scan state k = some ⟨state.keyed, true⟩ := by
  induction k generalizing state with
  | nil => exact absurd rfl hne
  | cons b k ih =>
      have hb := hk b List.mem_cons_self
      have hcomma : b ≠ comma := fun heq ↦ by simp [heq, isSpecial] at hb
      have hequals : b ≠ equals := fun heq ↦ by simp [heq, isSpecial] at hb
      have hnext : state.next b = some ⟨state.keyed, true⟩ := by
        simp [ItemScan.next, hcomma, hequals, hb]
      cases k with
      | nil => simp [scan, hnext]
      | cons c k =>
          rw [scan, hnext, Option.bind_some]
          exact ih _ (fun b hmem ↦ hk b (List.mem_cons_of_mem _ hmem)) (by simp)

/-- A valid key has no special characters. -/
theorem isSpecial_of_mem_key (hkey : ¬ badKey key) {b : UInt8} (hb : b ∈ key.bytes) :
    isSpecial b = false := by
  unfold badKey at hkey
  simp only [not_or] at hkey
  have hslash : b ≠ backslash := fun heq ↦ hkey.1 (heq ▸ hb)
  have hcomma : b ≠ comma := fun heq ↦ hkey.2.1 (heq ▸ hb)
  have hequals : b ≠ equals := fun heq ↦ hkey.2.2 (heq ▸ hb)
  simp [isSpecial, hslash, hcomma, hequals]

/-- A nonempty key may end once in an item. -/
theorem scan_keySearch (hkey : ¬ badKey key) (hne : key.bytes ≠ []) (state : ItemScan) :
    scan state (keySearch key) = if state.keyed then none else some ⟨true, false⟩ := by
  have hplain := scan_plain state (fun b hb ↦ isSpecial_of_mem_key hkey hb) hne
  rw [keySearch, scan_append, hplain, Option.bind_some]
  simp only [scan, ItemScan.next, equals_ne_comma, if_false, and_self, if_true]
  split <;> rfl

/-- The start of an item is always accepted. -/
theorem scan_keySearch_start (hkey : ¬ badKey key) :
    (scan ⟨false, false⟩ (keySearch key)).isSome := by
  by_cases hne : key.bytes = []
  · simp [keySearch, hne, scan, ItemScan.next]
  · simp [scan_keySearch hkey hne]

end Scan

section Invariant

variable {content final : List UInt8} {key val : CStr}

/-- An upsert keeps the items apart. -/
theorem itemized_stored (hkey : ¬ badKey key) (h : Itemized content)
    (hstored : stored content key val = some final) : Itemized final := by
  by_cases hsplice : SpliceRefused content key val
  · exact eq_of_spliceRefused hsplice hstored ▸ h
  · unfold Itemized at *
    rcases stored_cases hstored hsplice with ⟨hcut, rfl⟩ | ⟨before, after, hcut, rfl⟩
    · obtain ⟨last, hlast⟩ := Option.isSome_iff_exists.mp h
      obtain ⟨start, hstart⟩ := Option.isSome_iff_exists.mp (scan_keySearch_start hkey)
      rw [scan_append, hlast, Option.bind_some, scan_comma, newItem, scan_append, hstart,
        Option.bind_some]
      exact scan_escChars _ _
    · rw [splitFirst_eq hcut, scan_append] at h
      obtain ⟨last, hlast⟩ := Option.isSome_iff_exists.mp h
      obtain ⟨front, hfront, hafter⟩ := Option.bind_eq_some_iff.mp hlast
      rw [← itemText_append_itemRest after, scan_append] at hafter
      obtain ⟨old, _, hrested⟩ := Option.bind_eq_some_iff.mp hafter
      obtain ⟨new, hnew⟩ := Option.isSome_iff_exists.mp (scan_escChars front val.bytes)
      rw [newItem, ← List.append_assoc before, scan_append, scan_append, hfront,
        Option.bind_some, hnew, Option.bind_some]
      exact scan_rest (itemText_itemRest after) old new (by simp [hrested])

/-- No nonempty key ends behind another one in the same item. -/
theorem no_key_in_text {before text after : List UInt8} {other : CStr} (hkey : ¬ badKey key)
    (hne : key.bytes ≠ []) (hother : ¬ badKey other) (hother_ne : other.bytes ≠ [])
    (h : Itemized (before ++ keySearch key ++ text ++ after)) (htext : comma ∉ text) :
    ¬ keySearch other <:+: text := by
  rintro ⟨front, back, rfl⟩
  unfold Itemized at h
  obtain ⟨last, hlast⟩ := Option.isSome_iff_exists.mp h
  simp only [scan_append, Option.bind_eq_some_iff, scan_keySearch hkey hne,
    scan_keySearch hother hother_ne] at hlast
  obtain ⟨_, ⟨_, ⟨_, _, hkeyed⟩, _, ⟨_, hfront, hagain⟩, _⟩, _⟩ := hlast
  simp only [List.mem_append, not_or] at htext
  split at hkeyed
  · simp at hkeyed
  · obtain rfl := Option.some.inj hkeyed
    simp [scan_keyed htext.1.1 rfl hfront] at hagain

end Invariant

/-- A `write` that reports an error has left the region alone. -/
theorem write_error {key val : CStr} {region region' : Region} {err : DtErr} (herr : err ≠ .ok)
    (h : write key val region = some (err, region')) : region' = region := by
  by_cases hval : val.bytes.length ≤ maxValSize
  · by_cases hkey : badKey key
    · simp only [write, Nat.not_lt.mpr hval, if_false, upsertKey, hkey, if_true, bind, pure,
        Option.bind_some, ne_eq, reduceCtorEq, not_false_eq_true, Option.some.injEq,
        Prod.mk.injEq] at h
      exact h.2.symm
    · by_cases hmem : 0 ∈ region.bytes
      · obtain ⟨content, hcontent⟩ := exists_holds hmem
        cases hstored : stored content key val with
        | none =>
            rw [write_full hcontent hkey hval hstored] at h
            simp only [Option.some.injEq, Prod.mk.injEq] at h
            exact h.2.symm
        | some final =>
            by_cases hfits : final.length < nvsSize
            · obtain ⟨_, _, _, _, hwrite, _⟩ := write_stored hcontent hkey hval hstored hfits
              simp only [hwrite, Option.some.injEq, Prod.mk.injEq] at h
              exact absurd h.1.symm herr
            · simp [write_overrun hcontent hkey hval hstored (Nat.not_lt.mp hfits)] at h
      · simp [write_unterminated hmem hkey hval] at h
  · simp only [write, Nat.lt_of_not_le hval, if_true, Option.some.injEq, Prod.mk.injEq] at h
    exact h.2.symm

/-- Every string that a sequence of `write` calls leaves in the cleared region has at most one key
in each item. -/
theorem itemized_of_reachable {region : Region} {content : List UInt8}
    (h : Reachable writeCall zeroRegion region) (hcontent : Holds region.bytes content) :
    Itemized content := by
  obtain ⟨trace, hrun⟩ := h
  refine hrun.invariant (fun region ↦ ∀ content, Holds region.bytes content → Itemized content)
    ?_ ?_ content hcontent
  · intro content hcontent
    obtain rfl := hcontent.unique zeroRegion_holds
    rfl
  · intro before item after hbefore hstep content hcontent
    obtain ⟨⟨err, _⟩, hwrite, rfl⟩ := Option.map_eq_some_iff.mp hstep
    by_cases herr : err = .ok
    · subst herr
      obtain ⟨old, final, _, hold, hkey, _, hstored, _, _, _, hpart, hfull⟩ := write_ok hwrite
      by_cases hpage : final.length % pageSize = 0
      · exact absurd hcontent.zero_mem (hfull hpage)
      · obtain rfl := hcontent.unique (hpart hpage)
        exact itemized_stored hkey (hbefore old hold) hstored
    · obtain rfl := write_error herr hwrite
      exact hbefore content hcontent

end DirtieNode.Flashmem
