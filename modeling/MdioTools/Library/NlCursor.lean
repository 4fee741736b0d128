import MdioTools.Library.Netlink

/-!
# Walking over attributes in place

libmnl hands out pointers into the buffer it has received: an attribute is a
place in memory, the next one begins behind it, and parsing fills a table with
the place of the last attribute of each type.  This module has the walk by places
and what it does where attributes have been put one after another.

Main results:

- Definition {lit}`attrParse`: the table of the attributes between two places.
- Theorem {lit}`attr_at`: the fields of an attribute that has been put.
- Theorem {lit}`attrParse_attrs`: parsing attributes that have been put.
- Theorem {lit}`attrTable_apply`: the table has the last attribute of a type.
- Theorem {lit}`attrParse_eq`: parsing as a fold over the places of attributes.
-/

namespace MdioTools.Library

/-! ## Attributes in memory -/

/-- An attribute as it is put into a message: header, payload and padding. -/
def NlAttribute.bytes (e : Endian) (a : NlAttribute) : List Byte :=
  e.put16 (BitVec.ofNat 16 (4 + a.payload.length)) ++ e.put16 a.type ++ a.payload ++
    List.replicate (align4 a.payload.length - a.payload.length) 0

/-- Attributes one after another. -/
def attrsBytes (e : Endian) (attrs : List NlAttribute) : List Byte :=
  attrs.flatMap (NlAttribute.bytes e)

/-- The size of an attribute with its padding. -/
def NlAttribute.size (a : NlAttribute) : Nat :=
  4 + align4 a.payload.length

/-- The `nla_len` of the attribute at a place. -/
def attrLen (e : Endian) (mem : List Byte) (pos : Nat) : Nat :=
  (e.get16 (mem.drop pos)).toNat

/-- `mnl_attr_get_type`. -/
def attrType (e : Endian) (mem : List Byte) (pos : Nat) : BitVec 16 :=
  e.get16 (mem.drop (pos + 2)) &&& nlaTypeMask

/-- `mnl_attr_get_payload` and `mnl_attr_get_payload_len`. -/
def attrPayload (e : Endian) (mem : List Byte) (pos : Nat) : List Byte :=
  (mem.drop (pos + 4)).take (attrLen e mem pos - 4)

/-- `mnl_attr_ok` for the memory up to `stop`. -/
def AttrOk (e : Endian) (mem : List Byte) (pos stop : Nat) : Prop :=
  pos + 4 ≤ stop ∧ 4 ≤ attrLen e mem pos ∧ pos + attrLen e mem pos ≤ stop

instance (e : Endian) (mem : List Byte) (pos stop : Nat) : Decidable (AttrOk e mem pos stop) :=
  inferInstanceAs (Decidable (_ ∧ _ ∧ _))

/-- `mnl_attr_next`. -/
def attrNext (e : Endian) (mem : List Byte) (pos : Nat) : Nat :=
  pos + align4 (attrLen e mem pos)

/-- A table from types to places. -/
abbrev AttrTable : Type :=
  BitVec 16 → Option Nat

/-- Parsing the attributes between two places into a table with room for types up
to `max`.  A type above that is written behind the table, which is
{lean}`none`. -/
def attrParse (e : Endian) (mem : List Byte) (max : BitVec 16) (pos stop : Nat) (tb : AttrTable) :
    Option AttrTable :=
  if _h : AttrOk e mem pos stop then
    if max < attrType e mem pos then none
    else attrParse e mem max (attrNext e mem pos) stop
      (Function.update tb (attrType e mem pos) (some pos))
  else some tb
termination_by stop - pos
decreasing_by
  obtain ⟨_, hlen, _⟩ := _h
  have := le_align4 (attrLen e mem pos)
  unfold attrNext
  omega

/-! ## Attributes that have been put -/

variable {e : Endian} {mem : List Byte} {pos : Nat} {a : NlAttribute} {attrs : List NlAttribute}

/-- An attribute takes its size. -/
@[simp]
theorem NlAttribute.bytes_length (e : Endian) (a : NlAttribute) : (a.bytes e).length = a.size := by
  have hle := le_align4 a.payload.length
  simp only [bytes, size, List.length_append, Endian.put16_length, List.length_replicate]
  omega

theorem attrsBytes_cons (e : Endian) (a : NlAttribute) (attrs : List NlAttribute) :
    attrsBytes e (a :: attrs) = a.bytes e ++ attrsBytes e attrs :=
  List.flatMap_cons

/-- Attributes are put one after another. -/
theorem attrsBytes_append (e : Endian) (attrs attrs' : List NlAttribute) :
    attrsBytes e (attrs ++ attrs') = attrsBytes e attrs ++ attrsBytes e attrs' :=
  List.flatMap_append

/-- The size of attributes with their padding. -/
def attrsSize (attrs : List NlAttribute) : Nat :=
  (attrs.map NlAttribute.size).sum

/-- A list of attributes takes its size. -/
@[simp]
theorem attrsBytes_length (e : Endian) (attrs : List NlAttribute) :
    (attrsBytes e attrs).length = attrsSize attrs := by
  rw [attrsBytes, List.length_flatMap]
  simp only [NlAttribute.bytes_length, attrsSize]

theorem attrsSize_cons (a : NlAttribute) (attrs : List NlAttribute) :
    attrsSize (a :: attrs) = a.size + attrsSize attrs :=
  List.sum_cons

/-- The header of an attribute has room for its length, and its type has no
flags. -/
structure NlAttribute.Fits (a : NlAttribute) : Prop where
  length : 4 + a.payload.length < 2 ^ 16
  type : a.type &&& nlaTypeMask = a.type

/-- The payload stands behind the header. -/
theorem payload_at (h : a.bytes e <+: mem.drop pos) : a.payload <+: mem.drop (pos + 4) := by
  obtain ⟨rest, hrest⟩ := h
  have hhdr : (e.put16 (BitVec.ofNat 16 (4 + a.payload.length)) ++ e.put16 a.type).length = 4 := by
    simp
  have hdrop (hdr tail : List Byte) (h : hdr.length = 4) : (hdr ++ tail).drop 4 = tail := by
    rw [← h, List.drop_left]
  rw [← List.drop_drop, ← hrest, NlAttribute.bytes, List.append_assoc, List.append_assoc,
    hdrop _ _ hhdr]
  exact List.prefix_append _ _

/-- The fields of an attribute that has been put at a place. -/
theorem attr_at (hfits : a.Fits) (h : a.bytes e <+: mem.drop pos) :
    attrLen e mem pos = 4 + a.payload.length ∧ attrType e mem pos = a.type ∧
      attrPayload e mem pos = a.payload ∧ attrNext e mem pos = pos + a.size := by
  obtain ⟨rest, hrest⟩ := id h
  have hlen : attrLen e mem pos = 4 + a.payload.length := by
    rw [attrLen, ← hrest]
    simp only [NlAttribute.bytes, List.append_assoc, Endian.get16_put16, BitVec.toNat_ofNat]
    exact Nat.mod_eq_of_lt hfits.length
  have hlow : (e.put16 (BitVec.ofNat 16 (4 + a.payload.length))).length = 2 :=
    Endian.put16_length _ _
  have htype : attrType e mem pos = a.type := by
    rw [attrType, ← List.drop_drop, ← hrest]
    simp only [NlAttribute.bytes, List.append_assoc]
    rw [← hlow, List.drop_left, Endian.get16_put16, hfits.type]
  refine ⟨hlen, htype, ?_, ?_⟩
  · obtain ⟨tail, htail⟩ := payload_at h
    rw [attrPayload, hlen, Nat.add_sub_cancel_left, ← htail, List.take_left]
  · rw [attrNext, hlen, NlAttribute.size]
    unfold align4
    omega

/-- The first attribute stands in front of the others. -/
theorem attrs_tail (h : attrsBytes e (a :: attrs) <+: mem.drop pos) :
    a.bytes e <+: mem.drop pos ∧ attrsBytes e attrs <+: mem.drop (pos + a.size) := by
  obtain ⟨rest, hrest⟩ := h
  rw [attrsBytes_cons, List.append_assoc] at hrest
  refine ⟨⟨_, hrest⟩, rest, ?_⟩
  rw [← List.drop_drop, ← hrest, ← NlAttribute.bytes_length e a, List.drop_left]

/-- The table after attributes that have been put one after another. -/
def attrTable (max : BitVec 16) : List NlAttribute → Nat → AttrTable → Option AttrTable
  | [], _, tb => some tb
  | a :: attrs, pos, tb =>
      if max < a.type then none
      else attrTable max attrs (pos + a.size) (Function.update tb a.type (some pos))

/-- Parsing attributes that have been put one after another. -/
theorem attrParse_attrs (max : BitVec 16) (hfits : ∀ a ∈ attrs, a.Fits)
    (h : attrsBytes e attrs <+: mem.drop pos) (tb : AttrTable) :
    attrParse e mem max pos (pos + attrsSize attrs) tb = attrTable max attrs pos tb := by
  induction attrs generalizing pos tb with
  | nil =>
      have hend : ¬AttrOk e mem pos (pos + attrsSize []) := by
        rintro ⟨hpos, -⟩
        simp only [attrsSize, List.map_nil, List.sum_nil] at hpos
        omega
      rw [attrParse, dif_neg hend]
      rfl
  | cons a attrs ih =>
      obtain ⟨hhead, htail⟩ := attrs_tail h
      obtain ⟨hlen, htype, -, hnext⟩ := attr_at (hfits a List.mem_cons_self) hhead
      have hle := le_align4 a.payload.length
      have hok : AttrOk e mem pos (pos + attrsSize (a :: attrs)) := by
        rw [AttrOk, hlen, attrsSize_cons, NlAttribute.size]
        omega
      rw [attrParse, dif_pos hok, htype, hnext, attrsSize_cons, ← Nat.add_assoc,
        ih (fun b hb => hfits b (List.mem_cons_of_mem _ hb)) htail]
      rfl

/-! ## The table -/

/-- The place of the last attribute of a type. -/
def lastAttr (type : BitVec 16) : List NlAttribute → Nat → Option Nat
  | [], _ => none
  | a :: attrs, pos =>
      (lastAttr type attrs (pos + a.size)).or (if a.type = type then some pos else none)

/-- A table is filled if it has room for every type. -/
theorem attrTable_isSome_iff (max : BitVec 16) (attrs : List NlAttribute) (pos : Nat)
    (tb : AttrTable) :
    (attrTable max attrs pos tb).isSome ↔ ∀ a ∈ attrs, a.type ≤ max := by
  induction attrs generalizing pos tb with
  | nil => simp [attrTable]
  | cons a attrs ih =>
      rw [attrTable, List.forall_mem_cons]
      by_cases hlt : max < a.type
      · simp only [if_pos hlt, Option.isSome_none, Bool.false_eq_true, false_iff, not_and]
        exact fun hle => absurd hlt (BitVec.not_lt.mpr hle)
      · rw [if_neg hlt, ih]
        exact (and_iff_right (BitVec.not_lt.mp hlt)).symm

/-- The table has the last attribute of a type, or what it has had. -/
theorem attrTable_apply {max : BitVec 16} {attrs : List NlAttribute} {pos : Nat}
    {tb tb' : AttrTable} (h : attrTable max attrs pos tb = some tb') (type : BitVec 16) :
    tb' type = (lastAttr type attrs pos).or (tb type) := by
  induction attrs generalizing pos tb with
  | nil =>
      cases h
      rfl
  | cons a attrs ih =>
      rw [attrTable] at h
      split_ifs at h
      rw [ih h, lastAttr, Option.or_assoc]
      congr 1
      by_cases htype : a.type = type
      · rw [if_pos htype, htype, Function.update_self]
        rfl
      · rw [if_neg htype, Function.update_of_ne (Ne.symm htype)]
        rfl

/-- Parsing the same attributes again leaves the table as it is. -/
theorem attrTable_again {max : BitVec 16} {attrs : List NlAttribute} {pos : Nat}
    {tb tb' : AttrTable} (h : attrTable max attrs pos tb = some tb') :
    attrTable max attrs pos tb' = some tb' := by
  have hknown := (attrTable_isSome_iff max attrs pos tb).mp (h ▸ rfl)
  obtain ⟨again, hagain⟩ :=
    Option.isSome_iff_exists.mp ((attrTable_isSome_iff max attrs pos tb').mpr hknown)
  obtain rfl : again = tb' := by
    funext type
    rw [attrTable_apply hagain, attrTable_apply h, ← Option.or_assoc, Option.or_self]
  exact hagain

/-- No attribute is found if none has the type. -/
theorem lastAttr_eq_none_iff (type : BitVec 16) (attrs : List NlAttribute) (pos : Nat) :
    lastAttr type attrs pos = none ↔ ∀ a ∈ attrs, a.type ≠ type := by
  induction attrs generalizing pos with
  | nil => simp [lastAttr]
  | cons a attrs ih =>
      rw [lastAttr, Option.or_eq_none_iff, ih, List.forall_mem_cons, and_comm]
      by_cases htype : a.type = type <;> simp [htype]

/-- The last attribute of a type stands behind the others before it, and none of
its type comes after it. -/
theorem lastAttr_eq_some {type : BitVec 16} {attrs : List NlAttribute} {pos place : Nat}
    (h : lastAttr type attrs pos = some place) :
    ∃ front a back, attrs = front ++ a :: back ∧ a.type = type ∧ (∀ b ∈ back, b.type ≠ type) ∧
      place = pos + attrsSize front := by
  induction attrs generalizing pos with
  | nil => cases h
  | cons a attrs ih =>
      rw [lastAttr] at h
      cases hrest : lastAttr type attrs (pos + a.size) with
      | some p =>
          rw [hrest, Option.some_or] at h
          obtain rfl : p = place := Option.some.inj h
          obtain ⟨front, b, back, rfl, htype, hback, hplace⟩ := ih hrest
          exact ⟨a :: front, b, back, rfl, htype, hback, by rw [hplace, attrsSize_cons]; omega⟩
      | none =>
          rw [hrest, Option.none_or] at h
          split_ifs at h with htype
          obtain rfl : pos = place := Option.some.inj h
          exact ⟨[], a, attrs, rfl, htype, (lastAttr_eq_none_iff _ _ _).mp hrest,
            by simp [attrsSize]⟩

/-- The last attribute of a type hides those before it. -/
theorem lastAttr_split {type : BitVec 16} (front : List NlAttribute) {back : List NlAttribute}
    (ha : a.type = type) (hback : ∀ b ∈ back, b.type ≠ type) (pos : Nat) :
    lastAttr type (front ++ a :: back) pos = some (pos + attrsSize front) := by
  induction front generalizing pos with
  | nil =>
      rw [List.nil_append, lastAttr, (lastAttr_eq_none_iff _ _ _).mpr hback, if_pos ha]
      rfl
  | cons b front ih =>
      rw [List.cons_append, lastAttr, ih, attrsSize_cons, Nat.add_assoc]
      rfl

/-- The attributes behind the front ones stand at their place. -/
theorem attrs_middle {front back : List NlAttribute}
    (h : attrsBytes e (front ++ a :: back) <+: mem.drop pos) :
    a.bytes e <+: mem.drop (pos + attrsSize front) := by
  obtain ⟨rest, hrest⟩ := h
  rw [attrsBytes_append, attrsBytes_cons, List.append_assoc, List.append_assoc] at hrest
  refine ⟨attrsBytes e back ++ rest, ?_⟩
  rw [← List.drop_drop, ← hrest, ← attrsBytes_length e front, List.drop_left]

/-- The payload that is found is that of the last attribute of its type. -/
theorem nlaFind_split {front back : List NlAttribute} {type : BitVec 16} (ha : a.type = type)
    (hback : ∀ b ∈ back, b.type ≠ type) :
    nlaFind (front ++ a :: back) type = some a.payload := by
  have hnone : back.reverse.find? (fun b => b.type = type) = none := by
    rw [List.find?_eq_none]
    intro b hb
    simpa using hback b (List.mem_reverse.mp hb)
  rw [nlaFind, List.reverse_append, List.reverse_cons, List.append_assoc, List.find?_append, hnone]
  simp [ha]

/-- Sizes add up. -/
theorem attrsSize_append (attrs attrs' : List NlAttribute) :
    attrsSize (attrs ++ attrs') = attrsSize attrs + attrsSize attrs' := by
  rw [attrsSize, List.map_append, List.sum_append]
  rfl

/-- An attribute is no larger than all of them. -/
theorem size_le_attrsSize (h : a ∈ attrs) : a.size ≤ attrsSize attrs := by
  obtain ⟨front, back, rfl⟩ := List.append_of_mem h
  rw [attrsSize_append, attrsSize_cons]
  omega

/-- Attributes fill whole words. -/
theorem attrsSize_mod (attrs : List NlAttribute) : attrsSize attrs % 4 = 0 := by
  induction attrs with
  | nil => rfl
  | cons a attrs ih =>
      rw [attrsSize_cons, NlAttribute.size, align4]
      omega

/-- The last attribute of a type in memory. -/
theorem lastAttr_at {type : BitVec 16} {place : Nat} (hfits : ∀ a ∈ attrs, a.Fits)
    (hput : attrsBytes e attrs <+: mem.drop pos) (h : lastAttr type attrs pos = some place) :
    ∃ front a back, attrs = front ++ a :: back ∧ a.type = type ∧ (∀ b ∈ back, b.type ≠ type) ∧
      place = pos + attrsSize front ∧ a.bytes e <+: mem.drop place ∧
      attrPayload e mem place = a.payload ∧ attrNext e mem place = place + a.size ∧
      nlaFind attrs type = some a.payload := by
  obtain ⟨front, a, back, rfl, htype, hback, rfl⟩ := lastAttr_eq_some h
  have hat := attrs_middle hput
  obtain ⟨-, -, hpayload, hnext⟩ := attr_at (hfits a (by simp)) hat
  exact ⟨front, a, back, rfl, htype, hback, rfl, hat, hpayload, hnext, nlaFind_split htype hback⟩

/-! ## The places of attributes -/

/-- The places of the attributes between two places: `mnl_attr_for_each`. -/
def attrPlaces (e : Endian) (mem : List Byte) (pos stop : Nat) : List Nat :=
  if _h : AttrOk e mem pos stop then pos :: attrPlaces e mem (attrNext e mem pos) stop else []
termination_by stop - pos
decreasing_by
  obtain ⟨_, hlen, _⟩ := _h
  have := le_align4 (attrLen e mem pos)
  unfold attrNext
  omega

/-- They are between the two places. -/
theorem attrPlaces_bounds {stop place : Nat} (h : place ∈ attrPlaces e mem pos stop) :
    pos ≤ place ∧ place + 4 ≤ stop := by
  fun_induction attrPlaces e mem pos stop with
  | case1 pos hok ih =>
      rcases List.mem_cons.mp h with rfl | hrest
      · exact ⟨Nat.le_refl _, hok.1⟩
      · exact ⟨Nat.le_trans (Nat.le_add_right _ _) (ih hrest).1, (ih hrest).2⟩
  | case2 pos hok => cases h

/-- A list goes over the attributes between two places. -/
def WalksOver (e : Endian) (mem : List Byte) (stop : Nat) : Nat → List Nat → Prop
  | pos, [] => ¬AttrOk e mem pos stop
  | pos, p :: places => p = pos ∧ AttrOk e mem pos stop ∧
      WalksOver e mem stop (attrNext e mem pos) places

instance decidableWalksOver (e : Endian) (mem : List Byte) (stop : Nat) :
    (pos : Nat) → (places : List Nat) → Decidable (WalksOver e mem stop pos places)
  | pos, [] => inferInstanceAs (Decidable (¬AttrOk e mem pos stop))
  | pos, p :: places =>
      have := decidableWalksOver e mem stop (attrNext e mem pos) places
      inferInstanceAs (Decidable (p = pos ∧ AttrOk e mem pos stop ∧
        WalksOver e mem stop (attrNext e mem pos) places))

/-- There is one such list. -/
theorem attrPlaces_of_walksOver {stop : Nat} {places : List Nat}
    (h : WalksOver e mem stop pos places) : attrPlaces e mem pos stop = places := by
  induction places generalizing pos with
  | nil => rw [attrPlaces, dif_neg h]
  | cons p places ih =>
      obtain ⟨rfl, hok, hrest⟩ := h
      rw [attrPlaces, dif_pos hok, ih hrest]

/-- The place of the last attribute of a type. -/
def lastPlace (e : Endian) (mem : List Byte) (type : BitVec 16) : List Nat → Option Nat
  | [] => none
  | p :: places =>
      (lastPlace e mem type places).or (if attrType e mem p = type then some p else none)

/-- What is found later counts. -/
theorem lastPlace_append (e : Endian) (mem : List Byte) (type : BitVec 16)
    (places places' : List Nat) :
    lastPlace e mem type (places ++ places') =
      (lastPlace e mem type places').or (lastPlace e mem type places) := by
  induction places with
  | nil => simp [lastPlace]
  | cons p places ih => rw [List.cons_append, lastPlace, ih, lastPlace, Option.or_assoc]

/-- The place that is found is one of the type. -/
theorem lastPlace_eq_some {type : BitVec 16} {places : List Nat} {place : Nat}
    (h : lastPlace e mem type places = some place) :
    place ∈ places ∧ attrType e mem place = type := by
  induction places with
  | nil => cases h
  | cons p places ih =>
      rw [lastPlace, Option.or_eq_some_iff] at h
      rcases h with hlast | ⟨-, hfirst⟩
      · exact ⟨List.mem_cons_of_mem _ (ih hlast).1, (ih hlast).2⟩
      · split_ifs at hfirst with htype
        cases hfirst
        exact ⟨List.mem_cons_self, htype⟩

/-- Writing the places of attributes into a table, one after another. -/
theorem foldl_update_apply (places : List Nat) (tb : AttrTable) (type : BitVec 16) :
    places.foldl (fun tb p => Function.update tb (attrType e mem p) (some p)) tb type =
      (lastPlace e mem type places).or (tb type) := by
  induction places generalizing tb with
  | nil => rfl
  | cons p places ih =>
      rw [List.foldl_cons, ih, lastPlace, Option.or_assoc]
      congr 1
      by_cases htype : attrType e mem p = type
      · rw [if_pos htype, htype, Function.update_self]
        rfl
      · rw [if_neg htype, Function.update_of_ne (Ne.symm htype)]
        rfl

/-- Parsing writes the places of the attributes, if there is room for all of
them. -/
theorem attrParse_eq (e : Endian) (mem : List Byte) (max : BitVec 16) (pos stop : Nat)
    (tb : AttrTable) :
    attrParse e mem max pos stop tb =
      if ∀ p ∈ attrPlaces e mem pos stop, attrType e mem p ≤ max then
        some ((attrPlaces e mem pos stop).foldl
          (fun tb p => Function.update tb (attrType e mem p) (some p)) tb)
      else none := by
  fun_induction attrParse e mem max pos stop tb with
  | case1 pos tb hok hlt =>
      rw [attrPlaces, dif_pos hok, if_neg]
      exact fun hall => absurd hlt (BitVec.not_lt.mpr (hall pos List.mem_cons_self))
  | case2 pos tb hok hlt ih =>
      rw [ih, attrPlaces.eq_1 e mem pos, dif_pos hok, List.foldl_cons]
      simp only [List.forall_mem_cons, BitVec.not_lt.mp hlt, true_and]
  | case3 pos tb hok =>
      rw [attrPlaces, dif_neg hok, if_pos (List.forall_mem_nil _)]
      rfl

/-- The table after parsing. -/
theorem attrParse_apply {max : BitVec 16} {stop : Nat} {tb tb' : AttrTable}
    (h : attrParse e mem max pos stop tb = some tb') (type : BitVec 16) :
    tb' type = (lastPlace e mem type (attrPlaces e mem pos stop)).or (tb type) := by
  rw [attrParse_eq] at h
  split_ifs at h
  rw [← Option.some.inj h, foldl_update_apply]

/-- The place of the last attribute of a type, where attributes have been put one
after another. -/
theorem lastPlace_attrs (hfits : ∀ a ∈ attrs, a.Fits) (h : attrsBytes e attrs <+: mem.drop pos)
    (type : BitVec 16) :
    lastPlace e mem type (attrPlaces e mem pos (pos + attrsSize attrs)) =
      lastAttr type attrs pos := by
  -- no type is above the largest one, so parsing fills the table
  have hparse := attrParse_attrs (BitVec.allOnes 16) hfits h fun _ => none
  obtain ⟨tb, htb⟩ := Option.isSome_iff_exists.mp
    ((attrTable_isSome_iff (BitVec.allOnes 16) attrs pos fun _ => none).mpr fun a _ => by
      rw [BitVec.le_def, BitVec.toNat_allOnes]
      have := a.type.isLt
      omega)
  have hplace := attrParse_apply (hparse.trans htb) type
  have hput := attrTable_apply htb type
  rw [Option.or_none] at hplace hput
  rw [← hplace, hput]

/-- A parse stays inside its table if the types of all places do. -/
theorem attrParse_isSome_iff (max : BitVec 16) (stop : Nat) (tb : AttrTable) :
    (attrParse e mem max pos stop tb).isSome ↔
      ∀ p ∈ attrPlaces e mem pos stop, attrType e mem p ≤ max := by
  rw [attrParse_eq]
  split_ifs with hall
  · exact iff_of_true rfl hall
  · exact iff_of_false Bool.false_ne_true hall

/-- The attributes in memory are those at the places. -/
theorem nlAttrs_eq_places (e : Endian) (mem : List Byte) (pos : Nat) :
    nlAttrs e (mem.drop pos) = (attrPlaces e mem pos mem.length).map
      (fun p => ⟨attrType e mem p, attrPayload e mem p⟩) := by
  fun_induction attrPlaces e mem pos mem.length with
  | case1 pos hok ih =>
      obtain ⟨hhdr, hmin, hmax⟩ := hok
      have hfit : 4 ≤ (e.get16 (mem.drop pos)).toNat ∧
          (e.get16 (mem.drop pos)).toNat ≤ (mem.drop pos).length := by
        rw [List.length_drop]
        unfold attrLen at hmin hmax
        omega
      rw [nlAttrs, dif_pos hfit, List.map_cons, ← ih, List.drop_drop, List.drop_drop,
        List.drop_take, List.drop_drop]
      rfl
  | case2 pos hok =>
      rw [nlAttrs, dif_neg, List.map_nil]
      rintro ⟨hmin, hmax⟩
      rw [List.length_drop] at hmax
      apply hok
      unfold AttrOk attrLen
      omega

/-- The payload that is found is at the place of the last attribute of its type. -/
theorem nlaFind_eq_lastPlace (e : Endian) (mem : List Byte) (type : BitVec 16) :
    nlaFind (nlAttrs e mem) type =
      (lastPlace e mem type (attrPlaces e mem 0 mem.length)).map (attrPayload e mem) := by
  have hattrs := nlAttrs_eq_places e mem 0
  rw [List.drop_zero] at hattrs
  rw [hattrs]
  generalize attrPlaces e mem 0 mem.length = places
  induction places with
  | nil => rfl
  | cons p places ih =>
      rw [lastPlace, Option.map_or, ← ih]
      simp only [nlaFind, List.map_cons, List.reverse_cons, List.find?_append, Option.map_or]
      congr 1
      by_cases htype : attrType e mem p = type <;> simp [htype]

end MdioTools.Library
