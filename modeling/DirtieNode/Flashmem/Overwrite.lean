import DirtieNode.Flashmem.Keys

/-!
# What an acknowledged upsert has done

`upsert_key` returns `DT_ERR_OK` whenever it finds its key, whatever `splice` returns, and it ends
the old item at the first comma, which an escaped value may contain. `acknowledged_iff` says when
the item is really in the buffer, and `replaces_iff` when nothing of the old value stays behind it.
-/

namespace DirtieNode.Flashmem

open CString

/-! ## Stores of items -/

/-- The store with these items. -/
def storeText (items : List (CStr × CStr)) : List UInt8 :=
  items.flatMap fun item ↦ comma :: newItem item.1 item.2

@[simp] theorem storeText_nil : storeText [] = [] := rfl

@[simp] theorem storeText_cons (item : CStr × CStr) (items : List (CStr × CStr)) :
    storeText (item :: items) = comma :: newItem item.1 item.2 ++ storeText items := rfl

@[simp] theorem storeText_append (items others : List (CStr × CStr)) :
    storeText (items ++ others) = storeText items ++ storeText others :=
  List.flatMap_append

/-- The items with the value of a key replaced, or with a new item behind them. -/
def upserted (key val : CStr) : List (CStr × CStr) → List (CStr × CStr)
  | [] => [(key, val)]
  | (other, old) :: rest =>
      if other.bytes = key.bytes then (key, val) :: rest else (other, old) :: upserted key val rest

/-- The store holds the item `key=esc_chars(val)`: it stands behind a comma and ends at the next
one or at the end. -/
def HasItem (content : List UInt8) (key val : CStr) : Prop :=
  ∃ front back, content = front ++ comma :: (newItem key val ++ back) ∧ itemText back = []

section Items

variable {key val : CStr} {before after rest : List UInt8}

/-- Items without the text of a key have no item of that key. -/
theorem upserted_of_absent {items : List (CStr × CStr)}
    (h : ¬ keySearch key <:+: storeText items) :
    upserted key val items = items ++ [(key, val)] := by
  induction items with
  | nil => rfl
  | cons item items ih =>
      obtain ⟨other, old⟩ := item
      have hother : other.bytes ≠ key.bytes := by
        intro heq
        refine h ⟨[comma], escChars old.bytes ++ storeText items, ?_⟩
        simp [newItem, keySearch, heq]
      have hitems : ¬ keySearch key <:+: storeText items := fun hoccurs ↦
        h (hoccurs.trans (List.suffix_append _ _).isInfix)
      rw [upserted, if_neg hother, ih hitems, List.cons_append]

/-- In the text of an item no other item starts. -/
theorem no_item_in_newItem (hkey : ¬ badKey key) (val : CStr) :
    ¬ comma :: keySearch key <:+: newItem key val := by
  rintro ⟨front, back, heq⟩
  have hcomma : comma ∉ key.bytes := fun hmem ↦ hkey (.inr (.inl hmem))
  have hescaped : comma :: keySearch key <:+: escChars val.bytes := by
    have hparts : key.bytes ++ equals :: escChars val.bytes =
        front ++ comma :: (keySearch key ++ back) := by
      simpa [newItem, keySearch] using heq.symm
    rcases List.append_eq_append_iff.mp hparts with ⟨inner, _, hinner⟩ | ⟨tail, hbytes, htail⟩
    · cases inner with
      | nil => exact absurd (List.cons.inj hinner).1 equals_ne_comma
      | cons b inner => exact ⟨inner, back, by rw [(List.cons.inj hinner).2]; simp⟩
    · cases tail with
      | nil => exact absurd (List.cons.inj htail).1 comma_ne_equals
      | cons b tail =>
          obtain rfl := (List.cons.inj htail).1
          exact absurd (by rw [hbytes]; simp) hcomma
  -- its last byte before the `=` is not a backslash
  obtain ⟨start, c, hlast⟩ := (List.eq_nil_or_concat' (comma :: key.bytes)).resolve_left (by simp)
  have hc : c ≠ backslash := by
    rintro rfl
    have hmem : backslash ∈ comma :: key.bytes := by
      rw [hlast]
      simp
    rcases List.mem_cons.mp hmem with hcomma' | hmem
    · exact backslash_ne_comma hcomma'
    · exact hkey (.inl hmem)
  have hend : [c, equals] <:+: comma :: keySearch key :=
    ⟨start, [], by rw [keySearch, ← List.cons_append, hlast]; simp⟩
  exact not_infix_cons_escChars hc 0 val.bytes
    ((hend.trans hescaped).trans (List.suffix_cons _ _).isInfix)

/-- Text that starts with the end of an item starts with a comma, or is empty. -/
theorem itemText_eq_nil_iff : itemText rest = [] ↔ rest = [] ∨ ∃ tail, rest = comma :: tail := by
  cases rest with
  | nil => simp [itemText]
  | cons b rest =>
      by_cases hb : b = comma
      · simp [itemText, hb]
      · simp [itemText, hb]

/-- A new item in place of the first occurrence of its key is an item of the store if the key
stands behind a comma. -/
theorem hasItem_replaced_iff (hkey : ¬ badKey key) {content : List UInt8}
    (hcut : splitFirst (keySearch key) content = some (before, after))
    (hrest : itemText rest = []) :
    HasItem (before ++ newItem key val ++ rest) key val ↔
      [comma] <:+ before ∨ HasItem rest key val := by
  constructor
  · rintro ⟨front, back, heq, hback⟩
    have hsides : before ++ (newItem key val ++ rest) =
        (front ++ [comma]) ++ (newItem key val ++ back) := by simpa using heq
    rcases List.append_eq_append_iff.mp hsides with
      ⟨inner, hfront, hinner⟩ | ⟨inner, hbefore, hinner⟩
    · rcases List.eq_nil_or_concat' inner with rfl | ⟨inner, b, rfl⟩
      · exact .inl ⟨front, by simpa using hfront⟩
      · -- the item found starts behind the place of the new one
        rw [← List.append_assoc] at hfront
        obtain ⟨_, hb⟩ := List.append_inj' hfront rfl
        obtain rfl := List.head_eq_of_cons_eq hb
        have hbehind : newItem key val ++ rest = inner ++ comma :: (newItem key val ++ back) := by
          simpa using hinner
        rcases List.append_eq_append_iff.mp hbehind with
          ⟨start, _, hstart⟩ | ⟨tail, hitem, htail⟩
        · exact .inr ⟨start, back, hstart, hback⟩
        · cases tail with
          | nil => exact .inr ⟨[], back, htail.symm, hback⟩
          | cons c tail =>
              obtain ⟨rfl, hsame⟩ := List.cons.inj htail
              replace hsame : newItem key val ++ back = tail ++ rest := hsame
              refine absurd ?_ (no_item_in_newItem hkey val)
              rcases itemText_eq_nil_iff.mp hrest with rfl | ⟨rest, rfl⟩
              · refine ⟨inner, escChars val.bytes ++ back, ?_⟩
                rw [List.append_nil] at hsame
                rw [hitem, ← hsame, newItem]
                simp
              · have hover : tail ++ comma :: rest =
                    [] ++ (keySearch key ++ (escChars val.bytes ++ back)) := by
                  rw [← hsame, newItem, List.append_assoc, List.nil_append]
                rcases occurrence_separated (comma_not_mem_keySearch hkey) (keySearch_ne_nil key)
                  hover with ⟨more, hmore⟩ | ⟨more, hmore, _⟩
                · exact ⟨inner, more, by rw [hitem, hmore]; simp⟩
                · simp at hmore
    · -- the key of the item found would come before its first occurrence
      have hstarts : keySearch key <+: inner ++ keySearch key := by
        have hfirst : keySearch key <+: newItem key val ++ back :=
          ⟨escChars val.bytes ++ back, by simp [newItem]⟩
        have hfound : inner ++ keySearch key <+: newItem key val ++ back :=
          ⟨escChars val.bytes ++ rest, by rw [hinner]; simp [newItem]⟩
        exact List.prefix_of_prefix_length_le hfirst hfound (by simp)
      obtain ⟨tail, htail⟩ := hstarts
      have hocc : content = front ++ [comma] ++ keySearch key ++ (tail ++ after) := by
        rw [splitFirst_eq hcut, hbefore, List.append_assoc (front ++ [comma]), ← htail]
        simp
      have hle := splitFirst_le hcut hocc
      have hnil : inner = [] := by
        have hlen := congrArg List.length hbefore
        rw [List.length_append] at hlen
        exact List.length_eq_zero_iff.mp (by omega)
      exact .inl ⟨front, by rw [hbefore, hnil, List.append_nil]⟩
  · rintro (⟨front, rfl⟩ | ⟨front, back, rfl, hback⟩)
    · exact ⟨front, rest, by simp, hrest⟩
    · exact ⟨before ++ newItem key val ++ front, back, by simp, hback⟩

end Items

/-! ## Acknowledged upserts -/

/-- An upsert that returns `DT_ERR_OK` has put the item into the buffer, one that returns an error
has left the buffer as it was, and a value that fits is not refused. -/
def Acknowledged (items : List (CStr × CStr)) (key val : CStr) (region : Region)
    (buf : List UInt8) : Prop :=
  ∃ err region' buf', upsertKey key val region buf = some (err, region', buf') ∧
    (err = .ok → ∃ content, Holds buf' content ∧ HasItem content key val) ∧
    (err ≠ .ok → buf' = buf) ∧
    ((storeText (upserted key val items)).length ≤ nvsSize - 1 → err = .ok)

/-- When it does, in terms of the store before the upsert. Where `splice` refuses the new item, the
store holds it already. Where it does not, the result fits, and the key that was found is a whole
key and not the end of another one, or the item is also found behind it. -/
def AcknowledgedWhen (content : List UInt8) (key val : CStr) : Prop :=
  (SpliceRefused content key val → HasItem content key val) ∧
    (¬ SpliceRefused content key val → SpliceFits content key val ∧
      ∀ before after, splitFirst (keySearch key) content = some (before, after) →
        [comma] <:+ before ∨ HasItem (itemRest after) key val)

section Upsert

variable {content final buf : List UInt8} {key val : CStr} {region : Region}

/-- The string that an accepted upsert leaves holds the item exactly under the condition. -/
theorem hasItem_stored_iff (hkey : ¬ badKey key) (hlen : content.length < nvsSize)
    (hstored : stored content key val = some final) :
    final.length < nvsSize ∧ HasItem final key val ↔ AcknowledgedWhen content key val := by
  rw [← spliceFits_iff hlen hstored]
  unfold AcknowledgedWhen
  by_cases hsplice : SpliceRefused content key val
  · obtain rfl := eq_of_spliceRefused hsplice hstored
    have hfits := (spliceFits_iff hlen hstored).mpr hlen
    simp [hsplice, hfits]
  · simp only [hsplice, false_implies, not_false_eq_true, true_implies, true_and]
    refine and_congr_right fun _ ↦ ?_
    rcases stored_cases hstored hsplice with ⟨hcut, rfl⟩ | ⟨before, after, hcut, rfl⟩
    · refine iff_of_true ⟨content, [], by simp, rfl⟩ fun before after hfound ↦ ?_
      simp [hcut] at hfound
    · rw [hasItem_replaced_iff hkey hcut (itemText_itemRest after)]
      refine ⟨fun h before' after' hfound ↦ ?_, fun h ↦ h before after hcut⟩
      rw [hcut, Option.some.injEq, Prod.mk.injEq] at hfound
      obtain ⟨rfl, rfl⟩ := hfound
      exact h

/-- For every buffer of items, every valid key, every value and every region. -/
theorem acknowledged_iff {items : List (CStr × CStr)} (hbuf : buf.length = nvsSize)
    (h : Holds buf (storeText items)) (hkey : ¬ badKey key) (val : CStr) (region : Region) :
    Acknowledged items key val region buf ↔ AcknowledgedWhen (storeText items) key val := by
  obtain ⟨region', hinit, hready⟩ := initializeFlash_idem region
  have hlen : (storeText items).length < nvsSize := hbuf ▸ h.length_lt
  unfold Acknowledged
  rw [upsertKey_initialized hkey hinit hready]
  cases hstored : stored (storeText items) key val with
  | none =>
      have hrefused := stored_eq_none_iff.mp hstored
      have habsent := lookup_eq_none_iff.mp hrefused.1
      have hsize : ¬ (storeText (upserted key val items)).length ≤ nvsSize - 1 := by
        have hroom := hrefused.2
        rw [upserted_of_absent (splitFirst_eq_none habsent)]
        simp only [storeText_append, storeText_cons, storeText_nil, List.append_nil,
          List.length_append, List.length_cons, newItem_length]
        omega
      have hrun := upsertKey_full h hbuf hkey hready hstored
      refine iff_of_true ⟨_, _, buf, hrun, by simp, fun _ ↦ rfl, fun hfits ↦ absurd hfits hsize⟩
        ⟨?_, fun _ ↦ ⟨by simp [SpliceFits, habsent], by simp [habsent]⟩⟩
      rintro ⟨before, after, hcut, _⟩
      simp [habsent] at hcut
  | some final =>
      rw [← hasItem_stored_iff hkey hlen hstored]
      constructor
      · rintro ⟨err, region'', buf', hrun, hitem, _, _⟩
        have hfits : final.length < nvsSize := by
          by_contra hover
          obtain ⟨rfl, hzero⟩ :=
            upsertKey_overrun h hbuf hkey hready hstored (Nat.not_lt.mp hover) hrun
          obtain ⟨_, hholds, _⟩ := hitem rfl
          exact hzero hholds.zero_mem
        obtain ⟨buf'', hok, _, hholds⟩ := upsertKey_stored h hbuf hkey hready hstored hfits
        rw [hok] at hrun
        simp only [Option.some.injEq, Prod.mk.injEq] at hrun
        obtain ⟨rfl, rfl, rfl⟩ := hrun
        obtain ⟨held, hheld, hhas⟩ := hitem rfl
        exact ⟨hfits, hheld.unique hholds ▸ hhas⟩
      · rintro ⟨hfits, hhas⟩
        obtain ⟨buf', hok, _, hholds⟩ := upsertKey_stored h hbuf hkey hready hstored hfits
        exact ⟨_, _, buf', hok, fun _ ↦ ⟨final, hholds, hhas⟩, by simp, by simp⟩

end Upsert

/-- A new value in front of another item is acknowledged and stored. -/
theorem acknowledged_replaced : ∃ region : Region,
    Holds region.bytes (lit ",ssid=home,password=a\\=b") ∧
      Acknowledged [(.ofBytes (lit "ssid"), .ofBytes (lit "home")),
        (.ofBytes (lit "password"), .ofBytes (lit "a=b"))]
        (.ofBytes (lit "ssid")) (.ofBytes (lit "x,y")) region region.bytes := by
  obtain ⟨_, region, _, _, _, hholds⟩ := two_writes
  let items : List (CStr × CStr) := [(.ofBytes (lit "ssid"), .ofBytes (lit "home")),
    (.ofBytes (lit "password"), .ofBytes (lit "a=b"))]
  have htext : storeText items = lit ",ssid=home,password=a\\=b" := by decide
  have hitems : Holds region.bytes (storeText items) := htext ▸ hholds
  have hcut : splitFirst (keySearch (.ofBytes (lit "ssid"))) (storeText items) =
      some (lit ",", lit "home,password=a\\=b") := by decide
  have haccepted : ¬ SpliceRefused (storeText items) (.ofBytes (lit "ssid"))
      (.ofBytes (lit "x,y")) := by decide
  refine ⟨region, hholds, (acknowledged_iff region.size hitems (by decide) _ region).mpr
    ⟨fun hrefused ↦ absurd hrefused haccepted, fun _ ↦ ⟨by decide, ?_⟩⟩⟩
  intro before after hfound
  obtain ⟨rfl, rfl⟩ := Prod.mk.inj (Option.some.inj (hcut.symm.trans hfound))
  exact .inl List.suffix_rfl

/-- A key is found behind items with keys that do not end in it. -/
theorem splitFirst_storeText {key : CStr} {front : List (CStr × CStr)} (hkey : ¬ badKey key)
    (hne : key.bytes ≠ [])
    (hfront : ∀ item ∈ front, ¬ badKey item.1 ∧ ¬ key.bytes <:+ item.1.bytes)
    (after : List UInt8) :
    splitFirst (keySearch key) (storeText front ++ comma :: (keySearch key ++ after)) =
      some (storeText front ++ [comma], after) := by
  induction front with
  | nil => exact splitFirst_first hkey after
  | cons item front ih =>
      obtain ⟨other, old⟩ := item
      obtain ⟨hother, hsuffix⟩ := hfront (other, old) List.mem_cons_self
      have hrest := ih fun item hmem ↦ hfront item (List.mem_cons_of_mem _ hmem)
      -- the item is passed over as a whole, up to the comma of the next one
      have hitem : splitFirst (keySearch key) (newItem other old) = none := by
        have hkeys : splitFirst (keySearch key) (other.bytes ++ [equals]) = none :=
          splitFirst_eq_none_iff.mpr (mt (key_infix_key_iff hother).mp hsuffix)
        have hval := splitFirst_eq_none_iff.mpr (no_key_in_escChars hkey hne old.bytes)
        have hparts : newItem other old = other.bytes ++ equals :: escChars old.bytes := by
          simp [newItem, keySearch]
        rw [hparts, splitFirst_behind_key hkey _ _ hkeys, hval, Option.map_none]
      obtain ⟨rest, htail⟩ : ∃ rest,
          storeText front ++ comma :: (keySearch key ++ after) = comma :: rest := by
        cases front with
        | nil => exact ⟨_, rfl⟩
        | cons item front => exact ⟨_, rfl⟩
      have hbehind := splitFirst_separator (comma_not_mem_keySearch hkey) (keySearch_ne_nil key)
        (newItem other old) rest
      rw [htail, splitFirst_comma hkey] at hrest
      obtain ⟨cut, hcut, hsame⟩ := Option.map_eq_some_iff.mp hrest
      rw [hitem, hcut] at hbehind
      simp only [Prod.mk.injEq] at hsame
      rw [storeText_cons, List.append_assoc, htail, List.cons_append, splitFirst_comma hkey,
        hbehind]
      simp [hsame]

/-- Nine items with values of 250 bytes in front of the key, and its value is not replaced, although
the store would have room for it. -/
theorem refused_splice_acknowledged : ¬ ∀ (items : List (CStr × CStr)) (buf : List UInt8)
    (key val : CStr) (region : Region), (∀ item ∈ items, ¬ badKey item.1) → ¬ badKey key →
      buf.length = nvsSize → Holds buf (storeText items) →
      Acknowledged items key val region buf := by
  intro hclaim
  let key : CStr := .ofBytes (lit "k")
  let val : CStr := .ofBytes (lit "y")
  let letters : List CStr := [.ofBytes (lit "a"), .ofBytes (lit "b"), .ofBytes (lit "c"),
    .ofBytes (lit "d"), .ofBytes (lit "e"), .ofBytes (lit "f"), .ofBytes (lit "g"),
    .ofBytes (lit "h"), .ofBytes (lit "i")]
  let front := letters.map fun k ↦ (k, CStr.replicate 250 97)
  let items := front ++ [(key, .ofBytes (lit "x"))]
  have hkey : ¬ badKey key := by decide
  have hfront : ∀ item ∈ front, ¬ badKey item.1 ∧ ¬ key.bytes <:+ item.1.bytes := by
    have hletters : ∀ k ∈ letters, ¬ badKey k ∧ ¬ key.bytes <:+ k.bytes := by decide
    intro item hmem
    obtain ⟨k, hk, rfl⟩ := List.mem_map.mp hmem
    exact hletters k hk
  have hcontent : storeText items = storeText front ++ comma :: (keySearch key ++ lit "x") := by
    rw [storeText_append, storeText_cons, storeText_nil, List.append_nil]
    rfl
  have hlen : (storeText front).length = 2277 := by decide +kernel
  have hcut := splitFirst_storeText hkey (by decide) hfront (lit "x")
  rw [← hcontent] at hcut
  have hrefused : SpliceRefused (storeText items) key val := by
    refine ⟨_, _, hcut, ?_⟩
    rw [List.length_append, hlen]
    decide
  have hfits : (storeText items).length < nvsSize := by
    rw [hcontent, List.length_append, hlen]
    decide
  have hnul : 0 ∉ storeText items := by decide +kernel
  obtain ⟨count, hcount⟩ : ∃ count, count = nvsSize - (storeText items).length := ⟨_, rfl⟩
  have hbuf : (storeText items ++ List.replicate count 0).length = nvsSize := by
    rw [List.length_append, List.length_replicate]
    omega
  have hholds := holds_replicate count hnul (by omega)
  have hitems : ∀ item ∈ items, ¬ badKey item.1 := by
    intro item hmem
    rcases List.mem_append.mp hmem with hmem | hmem
    · exact (hfront item hmem).1
    · rw [List.mem_singleton.mp hmem]
      exact hkey
  obtain ⟨err, region, buf', hrun, hitem, _⟩ :=
    hclaim items _ key val zeroRegion hitems hkey hbuf hholds
  obtain ⟨buf'', hok, _, hheld⟩ := upsertKey_stored hholds hbuf hkey
    (initializeFlash_of_holds zeroRegion_holds true) (stored_of_spliceRefused hrefused) hfits
  rw [hok] at hrun
  simp only [Option.some.injEq, Prod.mk.injEq] at hrun
  obtain ⟨rfl, rfl, rfl⟩ := hrun
  obtain ⟨content, hcontent', front', back, hhas, _⟩ := hitem rfl
  obtain rfl := hcontent'.unique hheld
  have hnew : (121 : UInt8) ∈ newItem key val := by decide
  have hmem : (121 : UInt8) ∈ storeText items := by
    rw [hhas]
    exact List.mem_append_right _ (List.mem_cons_of_mem _ (List.mem_append_left _ hnew))
  exact absurd hmem (by decide +kernel)

/-! ## Overwritten values -/

/-- The store with these values under the keys of the firmware. -/
def credentialText (items : List (Credential × CStr)) : List UInt8 :=
  storeText (items.map fun item ↦ (item.1.key, item.2))

/-- An upsert of a key that is in the store leaves the same items, with the new value in place of
the old one. -/
def Replaces (front back : List (Credential × CStr)) (field : Credential) (val : CStr)
    (region : Region) (buf : List UInt8) : Prop :=
  ∃ region' buf', upsertKey field.key val region buf = some (.ok, region', buf') ∧
    Holds buf' (credentialText (front ++ (field, val) :: back))

section Credentials

variable {front back : List (Credential × CStr)} {field : Credential} {old val : CStr}
  {buf : List UInt8}

/-- Different values have different escaped texts. -/
theorem escChars_injective : Function.Injective escChars := fun val val' h ↦ by
  rw [← unescape_escChars val, h, unescape_escChars]

/-- Items with escaped values are items without keys in their texts. -/
theorem credentialText_eq (items : List (Credential × CStr)) :
    credentialText items = itemsText (items.map fun item ↦ (item.1, escChars item.2.bytes)) := by
  simp [credentialText, storeText, itemsText, newItem, List.flatMap_map]

/-- The store around one of its items. -/
theorem credentialText_item (front back : List (Credential × CStr)) (field : Credential)
    (val : CStr) : credentialText (front ++ (field, val) :: back) =
      credentialText front ++ [comma] ++ newItem field.key val ++ credentialText back := by
  simp [credentialText]

/-- A key is found at its item. -/
theorem splitFirst_credential (hnodup : ((front ++ (field, old) :: back).map Prod.fst).Nodup) :
    splitFirst (keySearch field.key) (credentialText (front ++ (field, old) :: back)) =
      some (credentialText front ++ [comma], escChars old.bytes ++ credentialText back) := by
  simp only [credentialText_eq, List.map_append, List.map_cons]
  generalize htexts : (fun item : Credential × CStr ↦ (item.1, escChars item.2.bytes)) = texts
  have hfree : ∀ item ∈ front.map texts ++ (field, escChars old.bytes) :: back.map texts,
      KeyFree item.2 := by
    subst htexts
    simp only [List.forall_mem_append, List.forall_mem_cons, List.forall_mem_map]
    exact ⟨fun item _ ↦ keyFree_escChars item.2, keyFree_escChars old,
      fun item _ ↦ keyFree_escChars item.2⟩
  have hkeys : ((front.map texts ++ (field, escChars old.bytes) :: back.map texts).map
      Prod.fst).Nodup := by
    subst htexts
    simpa [Function.comp_def] using hnodup
  generalize hitems : front.map texts ++ (field, escChars old.bytes) :: back.map texts = items at *
  cases hcut : splitFirst (keySearch field.key) (itemsText items) with
  | none =>
      refine absurd ?_ (splitFirst_eq_none hcut)
      rw [← hitems]
      exact ⟨itemsText (front.map texts) ++ [comma],
        escChars old.bytes ++ itemsText (back.map texts), by simp⟩
  | some cut =>
      obtain ⟨front', text, back', hitems', hbefore, hafter⟩ :=
        occurrence_item hfree ((splitFirst_eq hcut).trans (List.append_assoc ..))
      obtain ⟨rfl, rfl, rfl⟩ := item_unique hkeys hitems.symm hitems'
      rw [← hbefore, ← hafter]

/-- What is left of the old value behind the new one. -/
theorem itemRest_credential (old : CStr) (back : List (Credential × CStr)) :
    itemRest (escChars old.bytes ++ credentialText back) =
      itemRest (escChars old.bytes) ++ credentialText back := by
  rw [credentialText_eq]
  exact itemRest_append _ _

/-- An escaped value is the text of one item when it has no comma. -/
theorem itemRest_escChars_eq_nil_iff : itemRest (escChars old.bytes) = [] ↔ comma ∉ old.bytes := by
  rw [← comma_mem_escChars, ← itemText_eq_self_iff]
  have hparts := itemText_append_itemRest (escChars old.bytes)
  constructor
  · intro h
    rwa [h, List.append_nil] at hparts
  · intro h
    rw [h] at hparts
    simpa using hparts

/-- The accepted upsert of a key that is in the store leaves the items with the new value exactly
under the condition. -/
theorem stored_credential_iff {final : List UInt8}
    (hnodup : ((front ++ (field, old) :: back).map Prod.fst).Nodup)
    (hstored : stored (credentialText (front ++ (field, old) :: back)) field.key val =
      some final) :
    final = credentialText (front ++ (field, val) :: back) ↔
      (SpliceRefused (credentialText (front ++ (field, old) :: back)) field.key val →
        val.bytes = old.bytes) ∧
      (¬ SpliceRefused (credentialText (front ++ (field, old) :: back)) field.key val →
        comma ∉ old.bytes) := by
  have hcut := splitFirst_credential hnodup
  by_cases hsplice : SpliceRefused (credentialText (front ++ (field, old) :: back)) field.key val
  · obtain rfl := eq_of_spliceRefused hsplice hstored
    simp only [hsplice, true_implies, not_true_eq_false, false_implies, and_true]
    rw [credentialText_item, credentialText_item, newItem, newItem]
    simp [escChars_injective.eq_iff, eq_comm]
  · simp only [hsplice, false_implies, not_false_eq_true, true_implies, true_and]
    rcases stored_cases hstored hsplice with ⟨habsent, _⟩ | ⟨before, after, hfound, rfl⟩
    · simp [hcut] at habsent
    · rw [hcut, Option.some.injEq, Prod.mk.injEq] at hfound
      obtain ⟨rfl, rfl⟩ := hfound
      rw [credentialText_item, itemRest_credential, List.append_cancel_left_eq,
        List.append_left_eq_self, itemRest_escChars_eq_nil_iff]

/-- For every store of items under different keys of the firmware, with any values, for every new
value and every region, where the result fits. -/
theorem replaces_iff (hnodup : ((front ++ (field, old) :: back).map Prod.fst).Nodup)
    (hbuf : buf.length = nvsSize)
    (h : Holds buf (credentialText (front ++ (field, old) :: back)))
    (hfits : (credentialText (front ++ (field, val) :: back)).length ≤ nvsSize - 1)
    (region : Region) :
    Replaces front back field val region buf ↔
      (SpliceRefused (credentialText (front ++ (field, old) :: back)) field.key val →
        val.bytes = old.bytes) ∧
      (¬ SpliceRefused (credentialText (front ++ (field, old) :: back)) field.key val →
        comma ∉ old.bytes) := by
  obtain ⟨region', hinit, hready⟩ := initializeFlash_idem region
  have hroom : (credentialText (front ++ (field, val) :: back)).length < nvsSize := by
    unfold nvsSize at hfits ⊢
    omega
  unfold Replaces
  rw [upsertKey_initialized field.key_ok hinit hready]
  cases hstored : stored (credentialText (front ++ (field, old) :: back)) field.key val with
  | none =>
      have habsent := lookup_eq_none_iff.mp (stored_eq_none_iff.mp hstored).1
      simp [splitFirst_credential hnodup] at habsent
  | some final =>
      rw [← stored_credential_iff hnodup hstored]
      constructor
      · rintro ⟨region'', buf', hrun, hholds⟩
        by_cases hlong : nvsSize ≤ final.length
        · have hlost := upsertKey_overrun h hbuf field.key_ok hready hstored hlong hrun
          exact absurd hholds.zero_mem hlost.2
        · obtain ⟨buf'', hok, _, hfinal⟩ :=
            upsertKey_stored h hbuf field.key_ok hready hstored (Nat.lt_of_not_le hlong)
          rw [hok] at hrun
          simp only [Option.some.injEq, Prod.mk.injEq] at hrun
          obtain ⟨_, _, rfl⟩ := hrun
          exact hfinal.unique hholds
      · rintro rfl
        obtain ⟨buf', hok, _, hholds⟩ :=
          upsertKey_stored h hbuf field.key_ok hready hstored hroom
        exact ⟨_, buf', hok, hholds⟩

end Credentials

/-- The password is replaced behind the SSID. -/
theorem replaces_plain : Replaces [(.ssid, .ofBytes (lit "a,b"))] [] .password
    (.ofBytes (lit "new=")) zeroRegion
    (lit ",ssid=a\\,b,password=old" ++ List.replicate 4073 0) := by
  let items : List (Credential × CStr) :=
    [(.ssid, .ofBytes (lit "a,b"))] ++ (.password, .ofBytes (lit "old")) :: []
  have htext : credentialText items = lit ",ssid=a\\,b,password=old" := by decide
  have hholds : Holds (lit ",ssid=a\\,b,password=old" ++ List.replicate 4073 0)
      (credentialText items) := by
    rw [htext]
    exact holds_replicate 4073 (by decide) (by decide)
  have haccepted : ¬ SpliceRefused (credentialText items) (Credential.key .password)
      (.ofBytes (lit "new=")) := by decide
  have hbuf : (lit ",ssid=a\\,b,password=old" ++ List.replicate 4073 0).length = nvsSize := by
    rw [List.length_append, List.length_replicate]
    rfl
  exact (replaces_iff (by decide) hbuf hholds (by decide) zeroRegion).mpr
    ⟨fun h ↦ absurd h haccepted, fun _ ↦ by decide⟩

/-- An SSID with a comma leaves its end in the store. -/
theorem old_value_left : ¬ ∀ (front back : List (Credential × CStr)) (field : Credential)
    (old val : CStr) (region : Region) (buf : List UInt8),
      ((front ++ (field, old) :: back).map Prod.fst).Nodup → buf.length = nvsSize →
      Holds buf (credentialText (front ++ (field, old) :: back)) →
      (credentialText (front ++ (field, val) :: back)).length ≤ nvsSize - 1 →
      Replaces front back field val region buf := by
  intro hclaim
  let old : CStr := .ofBytes (lit "a,b")
  let val : CStr := .ofBytes (lit "c")
  have htext : credentialText [(.ssid, old)] = lit ",ssid=a\\,b" := by decide
  have hholds : Holds (lit ",ssid=a\\,b" ++ List.replicate 4086 0)
      (credentialText [(.ssid, old)]) := by
    rw [htext]
    exact holds_replicate 4086 (by decide) (by decide)
  have hbuf : (lit ",ssid=a\\,b" ++ List.replicate 4086 0).length = nvsSize := by
    rw [List.length_append, List.length_replicate]
    rfl
  obtain ⟨region, buf', hrun, hexpected⟩ :=
    hclaim [] [] .ssid old val zeroRegion _ (by decide) hbuf hholds (by decide)
  have hstored : stored (credentialText [(.ssid, old)]) (Credential.key .ssid) val =
      some (lit ",ssid=c,b") := by decide
  obtain ⟨buf'', hok, _, hleft⟩ := upsertKey_stored hholds hbuf (Credential.key_ok .ssid)
    (initializeFlash_of_holds zeroRegion_holds true) hstored (by decide)
  rw [hok] at hrun
  simp only [Option.some.injEq, Prod.mk.injEq] at hrun
  obtain ⟨_, _, rfl⟩ := hrun
  exact absurd (hleft.unique hexpected) (by decide)

end DirtieNode.Flashmem
