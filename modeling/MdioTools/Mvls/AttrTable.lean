import MdioTools.Mvls.Region

/-!
# Tables of attributes

{lit}`devlink_attr_cb` and {lit}`parse_attrs` write the place of an attribute into
the slot of its type, whatever the type is.  Where it is above the last type that
the header knows, the slot lies behind the table.

Main results:

- Definitions {lit}`devlinkParse`, {lit}`mnlAttrParseNested` and
  {lit}`mdioXferParse`: what a parse does to the memory that its table is in.
- Theorem {lit}`attrParse_eq_parse`: a parse that has room is one of these.
- Theorem {lit}`attrTables_iff`: when a parse keeps to its table and passes over
  the attributes that it does not know.
-/

namespace MdioTools.Mvls

open Library Kernel Client

/-! ## The callbacks -/

/-- `MDIO_NLA_MAX`. -/
def mdioNlaMax : BitVec 16 := 5

variable (e : Endian) (mem : List Byte)

/-- `tb[type] = attr`.  The slots up to the last type are the table, those above it
are what stands behind. -/
def storeAttr (slots : AttrTable) (attr : Nat) : AttrTable :=
  Function.update slots (attrType e mem attr) (some attr)

/-- `devlink_attr_cb`. -/
def devlinkAttrCb : AttrTable → Nat → AttrTable :=
  storeAttr e mem

/-- `parse_attrs`. -/
def parseAttrs : AttrTable → Nat → AttrTable :=
  storeAttr e mem

/-- `mnl_attr_parse` with a callback that accepts every attribute. -/
def mnlAttrParse (cb : AttrTable → Nat → AttrTable) (pos stop : Nat) (slots : AttrTable) :
    AttrTable :=
  (attrPlaces e mem pos stop).foldl cb slots

/-- `mnl_attr_parse_nested`. -/
def mnlAttrParseNested (cb : AttrTable → Nat → AttrTable) (attr : Nat) (slots : AttrTable) :
    AttrTable :=
  mnlAttrParse e mem cb (attr + 4) (attr + attrLen e mem attr) slots

/-- `devlink_parse` of a message whose attributes end at `stop`. -/
def devlinkParse (stop : Nat) (slots : AttrTable) : AttrTable :=
  mnlAttrParse e mem (devlinkAttrCb e mem) 0 stop slots

/-- The parse of `mdio_xfer_cb`. -/
def mdioXferParse (stop : Nat) (slots : AttrTable) : AttrTable :=
  mnlAttrParse e mem (parseAttrs e mem) 0 stop slots

/-! ## What a parse is for -/

/-- No attribute between two places has a type above `max`. -/
def AllKnown (max : BitVec 16) (pos stop : Nat) : Prop :=
  ∀ p ∈ attrPlaces e mem pos stop, attrType e mem p ≤ max

instance (max : BitVec 16) (pos stop : Nat) : Decidable (AllKnown e mem max pos stop) :=
  inferInstanceAs (Decidable (∀ p ∈ attrPlaces e mem pos stop, attrType e mem p ≤ max))

/-- A parse of the attributes between two places writes to its table only, each
known type ends up with its last attribute, and the attributes of other types
might as well be absent. -/
structure DecodesKnown (max : BitVec 16) (pos stop : Nat) (parse : AttrTable → AttrTable) :
    Prop where
  within : ∀ slots type, max < type → parse slots type = slots type
  last : ∀ slots type, type ≤ max → ∀ p,
    lastPlace e mem type (attrPlaces e mem pos stop) = some p → parse slots type = some p
  ignored : ∀ slots, parse slots =
    ((attrPlaces e mem pos stop).filter (attrType e mem · ≤ max)).foldl (storeAttr e mem) slots

/-! ## Parses -/

/-- The parse with a fault behind the table is a parse where there is room. -/
theorem attrParse_eq_parse (max : BitVec 16) (pos stop : Nat) (tb : AttrTable) :
    attrParse e mem max pos stop tb =
      if AllKnown e mem max pos stop then some (mnlAttrParse e mem (storeAttr e mem) pos stop tb)
      else none :=
  attrParse_eq e mem max pos stop tb

theorem mnlAttrParse_apply (pos stop : Nat) (slots : AttrTable) (type : BitVec 16) :
    mnlAttrParse e mem (storeAttr e mem) pos stop slots type =
      (lastPlace e mem type (attrPlaces e mem pos stop)).or (slots type) :=
  foldl_update_apply _ slots type

theorem decodesKnown_of_allKnown {max : BitVec 16} {pos stop : Nat}
    (h : AllKnown e mem max pos stop) :
    DecodesKnown e mem max pos stop (mnlAttrParse e mem (storeAttr e mem) pos stop) where
  within slots type hlt := by
    rw [mnlAttrParse_apply]
    cases hlast : lastPlace e mem type (attrPlaces e mem pos stop) with
    | none => rfl
    | some p =>
        obtain ⟨hmem, htype⟩ := lastPlace_eq_some hlast
        exact absurd (htype ▸ h p hmem) (BitVec.not_le.mpr hlt)
  last slots type _ p hlast := by rw [mnlAttrParse_apply, hlast, Option.some_or]
  ignored slots := by
    rw [List.filter_eq_self.mpr fun p hp => decide_eq_true (h p hp)]
    rfl

/-- An attribute of a type above the maximum is written behind the table. -/
theorem allKnown_of_within {max : BitVec 16} {pos stop : Nat}
    (h : ∀ slots type, max < type →
      mnlAttrParse e mem (storeAttr e mem) pos stop slots type = slots type) :
    AllKnown e mem max pos stop := by
  intro p hp
  by_contra hle
  have hslot := h emptyTable (attrType e mem p) (BitVec.not_le.mp hle)
  rw [mnlAttrParse_apply, emptyTable, Option.or_eq_none_iff] at hslot
  obtain ⟨front, back, hplaces⟩ := List.append_of_mem hp
  rw [hplaces, lastPlace_append, lastPlace, if_pos rfl] at hslot
  simp at hslot

theorem decodesKnown_iff (max : BitVec 16) (pos stop : Nat) :
    DecodesKnown e mem max pos stop (mnlAttrParse e mem (storeAttr e mem) pos stop) ↔
      AllKnown e mem max pos stop :=
  ⟨fun h => allKnown_of_within e mem h.within, decodesKnown_of_allKnown e mem⟩

/-- What `mdio_xfer_cb` finds in its table. -/
theorem xferAttr_eq_parse (msg : NlMsg) {body : List Byte}
    (hbody : msg.payload.drop genlHdrlen = body) (type : BitVec 16) :
    xferAttr e msg type =
      (mdioXferParse e body body.length emptyTable type).map (attrPayload e body) := by
  rw [xferAttr, hbody, nlaFind_eq_lastPlace]
  unfold mdioXferParse parseAttrs
  rw [mnlAttrParse_apply, emptyTable, Option.or_none]

/-- Every parse of a message, of a nest with `devlink_attr_cb`, and of a reply in
`mdio_xfer_cb` keeps to its table and decodes the attributes that it knows exactly
when it meets no others. -/
theorem attrTables_iff :
    (∀ stop, DecodesKnown e mem devlinkAttrMax 0 stop (devlinkParse e mem stop) ↔
      AllKnown e mem devlinkAttrMax 0 stop) ∧
    (∀ attr, DecodesKnown e mem devlinkAttrMax (attr + 4) (attr + attrLen e mem attr)
        (mnlAttrParseNested e mem (devlinkAttrCb e mem) attr) ↔
      AllKnown e mem devlinkAttrMax (attr + 4) (attr + attrLen e mem attr)) ∧
    (∀ stop, DecodesKnown e mem mdioNlaMax 0 stop (mdioXferParse e mem stop) ↔
      AllKnown e mem mdioNlaMax 0 stop) :=
  ⟨fun stop => decodesKnown_iff e mem devlinkAttrMax 0 stop,
    fun attr => decodesKnown_iff e mem devlinkAttrMax (attr + 4) (attr + attrLen e mem attr),
    fun stop => decodesKnown_iff e mem mdioNlaMax 0 stop⟩

/-- An empty attribute of type 162, the first that the header does not know, and
one of type 6: the one is written behind the table of {lit}`devlink_parse`, the
other behind that of {lit}`mdio_xfer_cb`. -/
theorem attrTables_unknown :
    devlinkParse .little [4, 0, 162, 0] 4 emptyTable 162 = some 0 ∧
      ¬DecodesKnown .little [4, 0, 162, 0] devlinkAttrMax 0 4
        (devlinkParse .little [4, 0, 162, 0] 4) ∧
      mdioXferParse .little [4, 0, 6, 0] 4 emptyTable 6 = some 0 ∧
      ¬DecodesKnown .little [4, 0, 6, 0] mdioNlaMax 0 4 (mdioXferParse .little [4, 0, 6, 0] 4) := by
  have hplaces (low : Byte) : attrPlaces .little [4, 0, low, 0] 0 4 = [0] := by
    rw [attrPlaces, dif_pos (by simp [AttrOk, attrLen, Endian.get16]), attrPlaces,
      dif_neg (by simp [AttrOk, attrNext, attrLen, Endian.get16, align4])]
  have hdevlink : devlinkParse .little [4, 0, 162, 0] 4 emptyTable 162 = some 0 := by
    unfold devlinkParse mnlAttrParse
    rw [hplaces]
    decide
  have hmdio : mdioXferParse .little [4, 0, 6, 0] 4 emptyTable 6 = some 0 := by
    unfold mdioXferParse mnlAttrParse
    rw [hplaces]
    decide
  refine ⟨hdevlink, fun h => ?_, hmdio, fun h => ?_⟩
  · have hslot := h.within emptyTable 162 (by decide)
    rw [hdevlink] at hslot
    cases hslot
  · have hslot := h.within emptyTable 6 (by decide)
    rw [hmdio] at hslot
    cases hslot

end MdioTools.Mvls
