import DirtieNode.Flashmem.Bounds
import DirtieNode.Flashmem.Interrupted

/-!
# Values cannot pose as keys

A buffer that has been filled through the three keys of the firmware is a list of items, each with a
comma and its key in front. The text of an item is an escaped value, and behind a comma perhaps
what a shorter value has left of an older one. No key is found in such a text, so a key occurs where
its item starts and nowhere else.
-/

namespace DirtieNode.Flashmem

open CString Transition

/-! ## Items -/

/-- A credential with the text behind its key. -/
abbrev Item := Credential × List UInt8

/-- The buffer with these items. -/
def itemsText (items : List Item) : List UInt8 :=
  items.flatMap fun item ↦ comma :: (keySearch item.1.key ++ item.2)

@[simp] theorem itemsText_nil : itemsText [] = [] := rfl

@[simp] theorem itemsText_cons (item : Item) (items : List Item) :
    itemsText (item :: items) = comma :: (keySearch item.1.key ++ item.2) ++ itemsText items := rfl

@[simp] theorem itemsText_append (items others : List Item) :
    itemsText (items ++ others) = itemsText items ++ itemsText others :=
  List.flatMap_append

/-- No key of the firmware is found in the text. -/
def KeyFree (text : List UInt8) : Prop :=
  ∀ field : Credential, ¬ keySearch field.key <:+: text

/-- An escaped value has none of the keys in it. -/
theorem keyFree_escChars (val : CStr) : KeyFree (escChars val.bytes) :=
  fun field ↦ no_key_in_escChars field.key_ok field.key_ne_nil val.bytes

/-- What a splice leaves behind the new value has no key either. -/
theorem keyFree_itemRest {text : List UInt8} (h : KeyFree text) (val : CStr) :
    KeyFree (escChars val.bytes ++ itemRest text) := by
  intro field hoccurs
  cases hrest : itemRest text with
  | nil =>
      rw [hrest, List.append_nil] at hoccurs
      exact keyFree_escChars val field hoccurs
  | cons b rest =>
      obtain rfl : b = comma := by
        by_contra hb
        have hempty := itemText_itemRest text
        simp [hrest, itemText, hb] at hempty
      obtain ⟨before, after, heq⟩ := hoccurs
      rw [hrest, List.append_assoc] at heq
      rcases occurrence_separated (comma_not_mem_keySearch field.key_ok)
        (keySearch_ne_nil field.key) heq.symm with ⟨tail, hval⟩ | ⟨front, _, hrest'⟩
      · exact keyFree_escChars val field ⟨before, tail, by rw [hval, List.append_assoc]⟩
      · have hsuffix : rest <:+ text :=
          (List.suffix_cons comma rest).trans (hrest ▸ List.dropWhile_suffix _)
        have hinside : keySearch field.key <:+: rest :=
          ⟨front, after, by rw [hrest', List.append_assoc]⟩
        exact h field (hinside.trans hsuffix.isInfix)

/-- A key behind the start of an item is that of the item, or it is in the text behind it. -/
theorem occurrence_key {field other : Credential} {u before after : List UInt8}
    (h : keySearch other.key ++ u = before ++ (keySearch field.key ++ after)) :
    (other = field ∧ before = [] ∧ u = after) ∨
      ∃ front, before = keySearch other.key ++ front ∧
        u = front ++ (keySearch field.key ++ after) := by
  have hequals : ∀ field : Credential, equals ∉ field.key.bytes :=
    fun field hmem ↦ field.key_ok (.inr (.inr hmem))
  simp only [keySearch, List.append_assoc, List.singleton_append] at h ⊢
  rcases occurrence_separated (hequals field) field.key_ne_nil h with
    ⟨tail, hbytes⟩ | ⟨front, hbefore, hu⟩
  · rw [hbytes] at h
    simp only [List.append_assoc, List.append_cancel_left_eq] at h
    cases tail with
    | nil =>
        -- one key ends in the other, which only equal ones do
        have hsame : other = field := by
          by_contra hne
          exact Credential.key_apart (Ne.symm hne) ⟨before, by rw [hbytes, List.append_nil]⟩
        subst hsame
        have hempty : before = [] := by simpa using hbytes
        exact .inl ⟨rfl, hempty, (List.cons.inj h).2⟩
    | cons b tail =>
        -- the key would have an '=' inside
        obtain rfl := (List.cons.inj h).1
        exact absurd (hbytes ▸ by simp) (hequals other)
  · exact .inr ⟨front, hbefore, hu⟩

/-- Every occurrence of a key starts its item. -/
theorem occurrence_item {items : List Item} {field : Credential} {before after : List UInt8}
    (hfree : ∀ item ∈ items, KeyFree item.2)
    (h : itemsText items = before ++ (keySearch field.key ++ after)) :
    ∃ front text back, items = front ++ (field, text) :: back ∧
      before = itemsText front ++ [comma] ∧ after = text ++ itemsText back := by
  induction items generalizing before with
  | nil =>
      have := congrArg List.length h
      simp [keySearch] at this
  | cons item items ih =>
      obtain ⟨other, text⟩ := item
      have hcomma := comma_not_mem_keySearch field.key_ok
      have hne := keySearch_ne_nil field.key
      rw [itemsText_cons] at h
      rcases occurrence_separated (s := []) hcomma hne h with
        ⟨tail, hempty⟩ | ⟨front, hfront, hitem⟩
      · simp [keySearch] at hempty
      · replace hitem : keySearch other.key ++ (text ++ itemsText items) =
            front ++ (keySearch field.key ++ after) := (List.append_assoc ..).symm.trans hitem
        rcases occurrence_key hitem with ⟨rfl, rfl, rfl⟩ | ⟨inner, rfl, htext⟩
        · exact ⟨[], text, items, rfl, hfront, rfl⟩
        · have hnone : ∀ tail, text ≠ inner ++ (keySearch field.key ++ tail) := fun tail heq ↦
            hfree _ List.mem_cons_self field ⟨inner, tail, by rw [heq, List.append_assoc]⟩
          -- the key is behind the next comma
          obtain ⟨rest, hrest⟩ : ∃ rest, itemsText items = comma :: rest := by
            cases items with
            | nil =>
                rw [itemsText_nil, List.append_nil] at htext
                exact absurd htext (hnone after)
            | cons next items => exact ⟨_, rfl⟩
          rw [hrest] at htext
          rcases occurrence_separated hcomma hne htext with ⟨tail, htext⟩ | ⟨back, rfl, hback⟩
          · exact absurd htext (hnone tail)
          · have hbehind : itemsText items = comma :: back ++ (keySearch field.key ++ after) := by
              rw [hrest, hback, List.cons_append]
            obtain ⟨front, text', back', rfl, hbefore, rfl⟩ :=
              ih (fun item hmem ↦ hfree item (List.mem_cons_of_mem _ hmem)) hbehind
            refine ⟨(other, text) :: front, text', back', rfl, ?_, rfl⟩
            rw [hfront, itemsText_cons, List.append_assoc (comma :: _), ← hbefore]
            simp

/-- The items of different keys determine each other's place. -/
theorem item_unique {items front back front' back' : List Item} {field : Credential}
    {text text' : List UInt8} (hnodup : (items.map Prod.fst).Nodup)
    (h : items = front ++ (field, text) :: back) (h' : items = front' ++ (field, text') :: back') :
    front = front' ∧ text = text' ∧ back = back' := by
  subst h
  induction front generalizing front' with
  | nil =>
      cases front' with
      | nil => simpa using h'
      | cons item front' =>
          obtain ⟨rfl, rfl⟩ := List.cons.inj h'
          simp at hnodup
  | cons item front ih =>
      cases front' with
      | nil =>
          obtain ⟨rfl, rfl⟩ := List.cons.inj h'
          simp at hnodup
      | cons item' front' =>
          obtain ⟨rfl, htail⟩ := List.cons.inj h'
          simp only [List.cons_append, List.map_cons, List.nodup_cons] at hnodup
          obtain ⟨rfl, rfl, rfl⟩ := ih hnodup.2 htail
          exact ⟨rfl, rfl, rfl⟩

/-- The items behind a text are kept with what follows its first comma. -/
theorem itemRest_append (text : List UInt8) (back : List Item) :
    itemRest (text ++ itemsText back) = itemRest text ++ itemsText back := by
  have hback : itemRest (itemsText back) = itemsText back := by
    cases back with
    | nil => rfl
    | cons item back => simp [itemRest]
  unfold itemRest at *
  rw [List.dropWhile_append]
  split
  · rename_i hempty
    rw [List.isEmpty_iff.mp hempty, hback, List.nil_append]
  · rfl

/-- An upsert adds the item of its key or gives it a new text. -/
theorem items_stored {items : List Item} {field : Credential} {val : CStr} {final : List UInt8}
    (hnodup : (items.map Prod.fst).Nodup) (hfree : ∀ item ∈ items, KeyFree item.2)
    (h : stored (itemsText items) field.key val = some final) :
    ∃ items', final = itemsText items' ∧ (items'.map Prod.fst).Nodup ∧
      (∀ item ∈ items', KeyFree item.2) ∧
      ∀ other, other ∈ items'.map Prod.fst ↔ other = field ∨ other ∈ items.map Prod.fst := by
  have hfound : ∀ {before after : List UInt8},
      splitFirst (keySearch field.key) (itemsText items) = some (before, after) →
      ∃ front text back, items = front ++ (field, text) :: back ∧
        before = itemsText front ++ [comma] ∧ after = text ++ itemsText back := fun hcut ↦
    occurrence_item hfree ((splitFirst_eq hcut).trans (List.append_assoc ..))
  by_cases hsplice : SpliceRefused (itemsText items) field.key val
  · obtain rfl := eq_of_spliceRefused hsplice h
    obtain ⟨before, after, hcut, -⟩ := hsplice
    obtain ⟨front, text, back, hitems, -⟩ := hfound hcut
    refine ⟨items, rfl, hnodup, hfree, fun other ↦ ⟨.inr, fun hmem ↦ hmem.elim (fun heq ↦ ?_) id⟩⟩
    rw [heq, hitems]
    simp
  · rcases stored_cases h hsplice with ⟨hcut, rfl⟩ | ⟨before, after, hcut, rfl⟩
    · -- the key is not in the buffer
      refine ⟨items ++ [(field, escChars val.bytes)], ?_, ?_, ?_, fun other ↦ ?_⟩
      · simp [newItem]
      · rw [List.map_append, List.nodup_append]
        refine ⟨hnodup, by simp, fun other hmem last hlast heq ↦ ?_⟩
        have hother : other = field := heq.trans (List.mem_singleton.mp hlast)
        obtain ⟨⟨_, text⟩, hitem, rfl⟩ := List.mem_map.mp hmem
        obtain ⟨front, back, hitems⟩ := List.append_of_mem hitem
        refine splitFirst_eq_none hcut ⟨itemsText front ++ [comma], text ++ itemsText back, ?_⟩
        rw [hitems, ← hother]
        simp
      · intro item hmem
        rcases List.mem_append.mp hmem with hold | hnew
        · exact hfree item hold
        · obtain rfl := List.mem_singleton.mp hnew
          exact keyFree_escChars val
      · simp [or_comm]
    · -- the item is replaced up to its first comma, and keeps what the splice leaves of it
      obtain ⟨front, text, back, rfl, rfl, rfl⟩ := hfound hcut
      have hrest := itemRest_append text back
      refine ⟨front ++ (field, escChars val.bytes ++ itemRest text) :: back, ?_, ?_, ?_,
        fun other ↦ ?_⟩
      · simp [newItem, hrest]
      · simpa using hnodup
      · intro item hmem
        rcases List.mem_append.mp hmem with hfront | hback
        · exact hfree item (List.mem_append_left _ hfront)
        · rcases List.mem_cons.mp hback with rfl | hback
          · exact keyFree_itemRest (hfree (field, text) (by simp)) val
          · exact hfree item (List.mem_append_right _ (List.mem_cons_of_mem _ hback))
      · simp only [List.map_append, List.map_cons, List.mem_append, List.mem_cons]
        tauto

/-! ## Runs -/

/-- The flash region, and the buffer that is filled. -/
structure Target where
  region : Region
  buf : List UInt8

/-- What `upsert_key` returns. -/
def upsertResult (target : Target) (item : Credential × CStr) : Option DtErr :=
  (upsertKey item.1.key item.2 target.region target.buf).map Prod.fst

/-- The transition function: a call of `upsert_key` after which the content is still shorter than
the buffer. -/
def upsertStep (target : Target) (item : Credential × CStr) : Option Target := do
  let (_, region, buf) ← upsertKey item.1.key item.2 target.region target.buf
  if 0 ∈ buf then some ⟨region, buf⟩ else none

/-- A call of `upsert_key` for the key has returned `DT_ERR_OK`. -/
def Upserted (field : Credential) (trace : List (Taken Target (Credential × CStr))) : Prop :=
  ∃ taken ∈ trace, taken.event.1 = field ∧ upsertResult taken.before taken.event = some .ok

/-- A key has been upserted in the last step or before it. -/
theorem upserted_cons {field : Credential} {taken : Taken Target (Credential × CStr)}
    {trace : List (Taken Target (Credential × CStr))} :
    Upserted field (taken :: trace) ↔
      taken.event.1 = field ∧ upsertResult taken.before taken.event = some .ok ∨
        Upserted field trace := by
  simp only [Upserted, List.mem_cons, exists_eq_or_imp]

/-- The buffer holds items of different keys, one for each key that was upserted. -/
structure KeysInv (trace : List (Taken Target (Credential × CStr))) (target : Target)
    (items : List Item) : Prop where
  size : target.buf.length = nvsSize
  holds : Holds target.buf (itemsText items)
  nodup : (items.map Prod.fst).Nodup
  free : ∀ item ∈ items, KeyFree item.2
  upserted : ∀ field, field ∈ items.map Prod.fst ↔ Upserted field trace

/-- An upsert keeps one item for each key. -/
theorem keysInv_step {trace : List (Taken Target (Credential × CStr))} {before after : Target}
    {item : Credential × CStr} {items : List Item} (h : KeysInv trace before items)
    (hstep : upsertStep before item = some after) :
    ∃ items', KeysInv (⟨before, item, after⟩ :: trace) after items' := by
  obtain ⟨field, val⟩ := item
  simp only [upsertStep, bind, Option.bind_eq_some_iff] at hstep
  obtain ⟨⟨err, region, buf⟩, hrun, hstep⟩ := hstep
  dsimp only at hstep
  split at hstep
  · rename_i hzero
    obtain rfl := Option.some.inj hstep
    obtain ⟨cleared, hinit, hidem⟩ := initializeFlash_idem before.region
    rw [upsertKey_initialized field.key_ok hinit hidem] at hrun
    have hresult : upsertResult before (field, val) = some err := by
      rw [upsertResult, upsertKey_initialized field.key_ok hinit hidem, hrun]
      rfl
    cases hstored : stored (itemsText items) field.key val with
    | none =>
        rw [upsertKey_full h.holds h.size field.key_ok hidem hstored] at hrun
        simp only [Option.some.injEq, Prod.mk.injEq] at hrun
        obtain ⟨rfl, rfl, rfl⟩ := hrun
        refine ⟨items, h.size, h.holds, h.nodup, h.free, fun other ↦ ?_⟩
        rw [upserted_cons, hresult, h.upserted]
        simp
    | some final =>
        -- a content that does not fit leaves no zero in the buffer
        have hfits : final.length < nvsSize := by
          by_contra hover
          exact (upsertKey_overrun h.holds h.size field.key_ok hidem hstored (Nat.not_lt.mp hover)
            hrun).2 hzero
        obtain ⟨buf', hok, hsize, hholds⟩ :=
          upsertKey_stored h.holds h.size field.key_ok hidem hstored hfits
        rw [hok] at hrun
        simp only [Option.some.injEq, Prod.mk.injEq] at hrun
        obtain ⟨rfl, rfl, rfl⟩ := hrun
        obtain ⟨items', rfl, hnodup, hfree, hkeys⟩ := items_stored h.nodup h.free hstored
        refine ⟨items', hsize, hholds, hnodup, hfree, fun other ↦ ?_⟩
        rw [upserted_cons, hresult, hkeys, h.upserted]
        simp [eq_comm]
  · simp at hstep

/-- The buffer of a run from an empty one. -/
theorem keysInv_run {start finish : Target} {trace : List (Taken Target (Credential × CStr))}
    (hsize : start.buf.length = nvsSize) (hempty : Holds start.buf [])
    (h : Run upsertStep start trace finish) : ∃ items, KeysInv trace finish items := by
  induction h with
  | refl => exact ⟨[], hsize, hempty, List.nodup_nil, by simp, by simp [Upserted]⟩
  | step _ hlast ih =>
      obtain ⟨items, hinv⟩ := ih
      exact keysInv_step hinv hlast

/-- After every sequence of upserts into an empty buffer that it does not fill, the text of a key
occurs once, behind a comma, if the key was upserted, and not at all otherwise. -/
theorem keys_unique {start finish : Target} {trace : List (Taken Target (Credential × CStr))}
    (hsize : start.buf.length = nvsSize) (hempty : Holds start.buf [])
    (h : Run upsertStep start trace finish) (field : Credential) :
    ∃ content, Holds finish.buf content ∧
      (Upserted field trace →
        (∃! cut : List UInt8 × List UInt8, content = cut.1 ++ keySearch field.key ++ cut.2) ∧
          ∀ before after, content = before ++ keySearch field.key ++ after → [comma] <:+ before) ∧
      (¬ Upserted field trace → ¬ keySearch field.key <:+: content) := by
  obtain ⟨items, hinv⟩ := keysInv_run hsize hempty h
  refine ⟨itemsText items, hinv.holds, fun hupserted ↦ ⟨?_, fun before after hcut ↦ ?_⟩,
    fun hnever hoccurs ↦ ?_⟩
  · obtain ⟨⟨_, text⟩, hitem, rfl⟩ := List.mem_map.mp ((hinv.upserted field).mpr hupserted)
    obtain ⟨front, back, hitems⟩ := List.append_of_mem hitem
    refine ⟨(itemsText front ++ [comma], text ++ itemsText back), ?_, fun cut hcut ↦ ?_⟩
    · rw [hitems]
      simp
    · obtain ⟨front', text', back', hitems', hbefore, hafter⟩ :=
        occurrence_item hinv.free (hcut.trans (List.append_assoc ..))
      obtain ⟨rfl, rfl, rfl⟩ := item_unique hinv.nodup hitems hitems'
      exact Prod.ext hbefore hafter
  · obtain ⟨front, _, _, _, rfl, _⟩ :=
      occurrence_item hinv.free (hcut.trans (List.append_assoc ..))
    exact List.suffix_append _ _
  · obtain ⟨before, after, hcut⟩ := hoccurs
    obtain ⟨front, text, back, hitems, -⟩ :=
      occurrence_item hinv.free (hcut.symm.trans (List.append_assoc ..))
    refine hnever ((hinv.upserted field).mp ?_)
    rw [hitems]
    simp

/-- An SSID that looks like two items, and a shorter one over it. -/
theorem keys_unique_hostile : ∃ (trace : List (Taken Target (Credential × CStr)))
    (finish : Target) (content : List UInt8),
    Run upsertStep ⟨zeroRegion, zeroRegion.bytes⟩ trace finish ∧ Holds finish.buf content ∧
      ∃! cut : List UInt8 × List UInt8,
        content = cut.1 ++ keySearch (Credential.key .ssid) ++ cut.2 := by
  obtain ⟨trace, finish, hrun, htest⟩ := exists_run_of_record upsertStep
    ⟨zeroRegion, zeroRegion.bytes⟩
    [(.ssid, .ofBytes (lit "a,password=b,ssid=c")), (.ssid, .ofBytes (lit "ssid="))]
    (fun trace _ ↦ trace.any fun taken ↦ decide (taken.event.1 = .ssid) &&
      decide (upsertResult taken.before taken.event = some .ok)) (by decide +kernel)
  simp only [List.any_eq_true, Bool.and_eq_true, decide_eq_true_eq] at htest
  obtain ⟨content, hholds, hupserted, -⟩ :=
    keys_unique zeroRegion.size zeroRegion_holds hrun .ssid
  exact ⟨trace, finish, content, hrun, hholds, (hupserted htest).1⟩

end DirtieNode.Flashmem
