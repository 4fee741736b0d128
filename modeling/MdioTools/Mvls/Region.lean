import Mathlib.Algebra.Order.BigOperators.Group.List
import Mathlib.Algebra.Order.Ring.Nat
import MdioTools.Client.Receive
import MdioTools.Library.NlCursor

/-!
# Putting a region together

The kernel sends the snapshot of a region in chunks, and
{lit}`devlink_region_dup_cb` copies each to its place.  Its loop has one cursor:
it also points at the attributes of a chunk in turn, so where the loop goes on
depends on what it has pointed at last.

Main results:

- Definition {lit}`dupLoop`: the loop over the chunks, by places in memory.
- Theorem {lit}`dupReplies_reassembled`: chunks that have both attributes, the
  address last, are put together.
- Theorem {lit}`devlinkRegionDup_iff`: no other layout of the replies is put
  together whatever the contents are.
-/

namespace MdioTools.Mvls

open Library Client

/-! ## The callback -/

/-- The attributes of {lit}`linux/devlink.h` that are used, and the last one. -/
def devlinkAttrBusName : BitVec 16 := 1
def devlinkAttrDevName : BitVec 16 := 2
def devlinkAttrRegionChunks : BitVec 16 := 93
def devlinkAttrRegionChunk : BitVec 16 := 94
def devlinkAttrRegionChunkData : BitVec 16 := 95
def devlinkAttrRegionChunkAddr : BitVec 16 := 96
def devlinkAttrMax : BitVec 16 := 161

/-- The bytes of a `struct devlink_region`; {lean}`none` is one that has not been
written since it was allocated. -/
abbrev RegionBytes : Type :=
  List (Option Byte)

/-- `realloc` to a size that is not smaller. -/
def RegionBytes.grow (region : RegionBytes) (size : Nat) : RegionBytes :=
  region ++ List.replicate (size - region.length) none

/-- `memcpy` to an offset. -/
def RegionBytes.copy (region : RegionBytes) (offs : Nat) (chunk : List Byte) : RegionBytes :=
  region.take offs ++ chunk.map some ++ region.drop (offs + chunk.length)

/-- How the callback ends: it returns and leaves a region, or it accesses memory
that is not its own. -/
inductive DupResult
  | returned (ret : MnlCb) (region : RegionBytes)
  | fault

/-- The cursor, the table of the attributes of chunks, and the region. -/
structure DupState where
  attr : Nat
  tbc : AttrTable
  region : RegionBytes

variable (e : Endian) (alloc : Nat → Bool) (mem : List Byte)

/-- The body of the loop behind the parsing of a chunk, and the step of the
cursor.  Where an attribute is missing the cursor is null, and the loop goes on
with the attribute behind that. -/
def dupChunk (tbc : AttrTable) (region : RegionBytes) : DupState ⊕ DupResult :=
  match tbc devlinkAttrRegionChunkData, tbc devlinkAttrRegionChunkAddr with
  | none, _ | _, none => .inr .fault
  | some data, some addr =>
      let chunk := attrPayload e mem data
      let offs := e.get64 (mem.drop (addr + 4))
      let size := (offs + BitVec.ofNat 64 chunk.length).toNat
      if mem.length < addr + 12 then .inr .fault
      else if region.length < size ∧ alloc size = false then .inr (.returned .error [])
      else if (region.grow size).length < offs.toNat + chunk.length then .inr .fault
      else .inl ⟨attrNext e mem addr, tbc, (region.grow size).copy offs.toNat chunk⟩

/-- The loop of `devlink_region_dup_cb` over the memory up to `stop`.
`devlink_attr_cb` accepts every attribute. -/
def dupLoop (stop : Nat) : Machine DupState DupResult where
  step s :=
    if ¬AttrOk e mem s.attr stop then .inr (.returned .ok s.region)
    else
      match attrParse e mem devlinkAttrMax (s.attr + 4) (s.attr + attrLen e mem s.attr) s.tbc with
      | none => .inr .fault
      | some tbc => dupChunk e alloc mem tbc s.region

/-- An empty table. -/
def emptyTable : AttrTable :=
  fun _ => none

/-- `devlink_region_dup_cb` for the attributes of a message. -/
def DevlinkRegionDupCb (region : RegionBytes) (r : DupResult) : Prop :=
  match attrParse e mem devlinkAttrMax 0 mem.length emptyTable with
  | none => r = .fault
  | some tb =>
      match tb devlinkAttrBusName, tb devlinkAttrDevName, tb devlinkAttrRegionChunks with
      | some _, some _, some chunks =>
          (dupLoop e alloc mem (chunks + attrLen e mem chunks)).Halts
            ⟨chunks + 4, emptyTable, region⟩ r
      | _, _, _ => r = .returned .error region

/-- The callback on one message after another, as long as it returns with
success. -/
inductive DupReplies : List (List Byte) → RegionBytes → RegionBytes → Prop
  | nil (region) : DupReplies [] region region
  | cons {mem mems region region' region''} (h : DevlinkRegionDupCb e alloc mem region
      (.returned .ok region')) (hrest : DupReplies mems region' region'') :
      DupReplies (mem :: mems) region region''

/-! ## What it is for -/

/-- The data of a chunk and its place in the region. -/
structure RegionChunk where
  addr : Nat
  data : List Byte

/-- The end of a chunk in the region. -/
def RegionChunk.stop (c : RegionChunk) : Nat :=
  c.addr + c.data.length

/-- The byte that a chunk has for a place in the region. -/
def RegionChunk.byte (c : RegionChunk) (i : Nat) : Option Byte :=
  if c.addr ≤ i then c.data[i - c.addr]? else none

/-- The byte of the last chunk that has one for a place. -/
def lastByte (chunks : List RegionChunk) (i : Nat) : Option Byte :=
  chunks.foldl (fun b c => (c.byte i).or b) none

/-- The region that is made of chunks: it ends where the last of them does, and
has the data of each where no later one has its own. -/
structure Reassembled (chunks : List RegionChunk) (region : RegionBytes) : Prop where
  size : region.length = chunks.foldl (fun n c => max n c.stop) 0
  bytes : ∀ i b, lastByte chunks i = some b → region[i]? = some (some b)

/-- The chunk of some attributes, if they are all there. -/
def chunkOf (attrs : List NlAttribute) : Option RegionChunk := do
  let data ← nlaFind attrs devlinkAttrRegionChunkData
  let addr ← nlaFind attrs devlinkAttrRegionChunkAddr
  some ⟨(e.get64 addr).toNat, data⟩

/-- A reply: the attributes before the chunks, those of each chunk, and the
attributes behind them. -/
structure RegionReply where
  before : List NlAttribute
  chunks : List (List NlAttribute)
  after : List NlAttribute

/-- The attribute that a chunk is nested in. -/
def chunkAttr (attrs : List NlAttribute) : NlAttribute :=
  ⟨devlinkAttrRegionChunk, attrsBytes e attrs⟩

/-- The attribute that the chunks are nested in. -/
def chunksAttr (chunks : List (List NlAttribute)) : NlAttribute :=
  ⟨devlinkAttrRegionChunks, attrsBytes e (chunks.map (chunkAttr e))⟩

/-- The attributes of a reply in memory. -/
def RegionReply.bytes (r : RegionReply) : List Byte :=
  attrsBytes e (r.before ++ chunksAttr e r.chunks :: r.after)

/-- Replies that are well formed: they name the bus and the device, they have one
list of chunks, attributes have room for their lengths, addresses have 64 bits,
and no chunk ends behind the last address. -/
structure RegionReply.Valid (r : RegionReply) : Prop where
  busName : ∃ a ∈ r.before ++ r.after, a.type = devlinkAttrBusName
  devName : ∃ a ∈ r.before ++ r.after, a.type = devlinkAttrDevName
  other : ∀ a ∈ r.before ++ r.after, a.Fits ∧ a.type ≠ devlinkAttrRegionChunks
  fits : (chunksAttr e r.chunks).Fits
  types : ∀ c ∈ r.chunks, ∀ a ∈ c, a.type &&& nlaTypeMask = a.type
  addr : ∀ c ∈ r.chunks, ∀ a ∈ c, a.type = devlinkAttrRegionChunkAddr → a.payload.length = 8
  bounded : ∀ c ∈ r.chunks, ∀ k, chunkOf e c = some k → k.stop < 2 ^ 64

/-- The chunks of replies that have both attributes, in order. -/
def allChunks (replies : List RegionReply) : List RegionChunk :=
  replies.flatMap fun r => r.chunks.filterMap (chunkOf e)

/-- The callback gets through the replies, and the region is put together. -/
def PutTogether (replies : List RegionReply) : Prop :=
  ∃ region, DupReplies e alloc (replies.map (·.bytes e)) [] region ∧
    Reassembled (allChunks e replies) region

/-- A chunk with data and an address, the address last, and without attributes
that the client has no room for. -/
structure LayoutOk (types : List (BitVec 16)) : Prop where
  data : devlinkAttrRegionChunkData ∈ types
  addr : types.getLast? = some devlinkAttrRegionChunkAddr
  known : ∀ type ∈ types, type ≤ devlinkAttrMax

/-- The types of the attributes of a chunk. -/
def layout (attrs : List NlAttribute) : List (BitVec 16) :=
  attrs.map NlAttribute.type

/-- The client has room for the attributes of a reply, and the chunks can be
told apart. -/
structure ReplyOk (r : RegionReply) : Prop where
  known : ∀ a ∈ r.before ++ r.after, a.type ≤ devlinkAttrMax
  chunks : ∀ c ∈ r.chunks, LayoutOk (layout c)

/-- Two replies that differ at most in the contents of their chunks. -/
structure SameLayout (r r' : RegionReply) : Prop where
  before : r'.before = r.before
  after : r'.after = r.after
  chunks : r'.chunks.map layout = r.chunks.map layout

/-! ## Writing a chunk -/

variable {e : Endian} {alloc : Nat → Bool} {mem : List Byte}

/-- A region grows to the given size, or is large enough. -/
theorem RegionBytes.grow_length (region : RegionBytes) (size : Nat) :
    (region.grow size).length = max region.length size := by
  simp only [grow, List.length_append, List.length_replicate]
  omega

/-- A copy that fits keeps the size. -/
theorem RegionBytes.copy_length {region : RegionBytes} {offs : Nat} {chunk : List Byte}
    (h : offs + chunk.length ≤ region.length) : (region.copy offs chunk).length = region.length := by
  simp only [copy, List.length_append, List.length_take, List.length_map, List.length_drop]
  omega

/-- Copied bytes are in place, and the others are left. -/
theorem RegionBytes.copy_getElem? {region : RegionBytes} {c : RegionChunk}
    (h : c.stop ≤ region.length) (i : Nat) :
    (region.copy c.addr c.data)[i]? =
      if (c.byte i).isSome then some (c.byte i) else region[i]? := by
  unfold RegionChunk.stop at h
  have htake : (region.take c.addr).length = c.addr := by
    rw [List.length_take]
    omega
  unfold copy RegionChunk.byte
  rw [List.append_assoc]
  by_cases hlow : c.addr ≤ i
  · rw [List.getElem?_append_right (by omega), htake, if_pos hlow]
    by_cases hin : i - c.addr < c.data.length
    · rw [List.getElem?_append_left (by rw [List.length_map]; exact hin), List.getElem?_map,
        List.getElem?_eq_getElem hin]
      rfl
    · rw [List.getElem?_append_right (by rw [List.length_map]; omega), List.getElem?_drop,
        List.getElem?_eq_none (Nat.not_lt.mp hin), List.length_map]
      congr 1
      omega
  · rw [List.getElem?_append_left (by omega), List.getElem?_take_of_lt (by omega), if_neg hlow]
    rfl

/-- No chunk leaves an empty region. -/
theorem Reassembled.nil : Reassembled [] [] :=
  ⟨rfl, fun _ _ h => nomatch h⟩

/-- A chunk is put to those before it. -/
theorem Reassembled.append {chunks : List RegionChunk} {region : RegionBytes}
    (h : Reassembled chunks region) (c : RegionChunk) :
    Reassembled (chunks ++ [c]) ((region.grow c.stop).copy c.addr c.data) := by
  have hlength := region.grow_length c.stop
  have hfit : c.stop ≤ (region.grow c.stop).length := by omega
  constructor
  · rw [RegionBytes.copy_length hfit, hlength, List.foldl_append, ← h.size]
    rfl
  · intro i b hb
    have hlast : (c.byte i).or (lastByte chunks i) = some b := by
      rw [lastByte, List.foldl_append] at hb
      exact hb
    rw [RegionBytes.copy_getElem? hfit]
    cases hbyte : c.byte i with
    | some d =>
        rw [hbyte, Option.some_or] at hlast
        rw [hlast]
        rfl
    | none =>
        rw [hbyte, Option.none_or] at hlast
        have hold := h.bytes i b hlast
        have hlt : i < region.length := (List.getElem?_eq_some_iff.mp hold).1
        rw [RegionBytes.grow, List.getElem?_append_left hlt]
        exact hold

/-! ## One chunk -/

/-- What is known of the attributes of a chunk in a valid reply. -/
structure ChunkFits (e : Endian) (attrs : List NlAttribute) : Prop where
  size : 4 + attrsSize attrs < 2 ^ 16
  types : ∀ a ∈ attrs, a.type &&& nlaTypeMask = a.type
  addr : ∀ a ∈ attrs, a.type = devlinkAttrRegionChunkAddr → a.payload.length = 8
  bounded : ∀ k, chunkOf e attrs = some k → k.stop < 2 ^ 64

section Chunk

variable {attrs : List NlAttribute} {pos stop : Nat}

/-- The attributes of a chunk that fits do. -/
theorem ChunkFits.attr (h : ChunkFits e attrs) {a : NlAttribute} (ha : a ∈ attrs) : a.Fits := by
  have hsize := size_le_attrsSize ha
  have hlength := le_align4 a.payload.length
  have hlt := h.size
  rw [NlAttribute.size] at hsize
  exact ⟨by omega, h.types a ha⟩

/-- A chunk that fits is an attribute that fits. -/
theorem ChunkFits.chunkAttr (h : ChunkFits e attrs) : (chunkAttr e attrs).Fits := by
  have htype : devlinkAttrRegionChunk &&& nlaTypeMask = devlinkAttrRegionChunk := by decide
  exact ⟨by simpa [Mvls.chunkAttr] using h.size, htype⟩

/-- A chunk takes its header and its attributes. -/
theorem chunkAttr_size (e : Endian) (attrs : List NlAttribute) :
    (chunkAttr e attrs).size = 4 + attrsSize attrs := by
  rw [NlAttribute.size, chunkAttr, attrsBytes_length, align4_of_dvd (attrsSize_mod attrs)]

/-- The attributes of a chunk in memory. -/
theorem attrs_of_chunk (hput : (chunkAttr e attrs).bytes e <+: mem.drop pos) :
    attrsBytes e attrs <+: mem.drop (pos + 4) :=
  payload_at hput

/-- A chunk is parsed into the table. -/
theorem chunk_parse (h : ChunkFits e attrs)
    (hput : (chunkAttr e attrs).bytes e <+: mem.drop pos)
    (hstop : pos + (chunkAttr e attrs).size ≤ stop) (tbc : AttrTable) :
    AttrOk e mem pos stop ∧
      attrParse e mem devlinkAttrMax (pos + 4) (pos + attrLen e mem pos) tbc =
        attrTable devlinkAttrMax attrs (pos + 4) tbc := by
  obtain ⟨hlen, -, -, -⟩ := attr_at h.chunkAttr hput
  have hpayload : (chunkAttr e attrs).payload.length = attrsSize attrs := attrsBytes_length e attrs
  rw [hpayload] at hlen
  rw [chunkAttr_size] at hstop
  constructor
  · rw [AttrOk, hlen]
    omega
  · rw [hlen, ← Nat.add_assoc]
    exact attrParse_attrs devlinkAttrMax (fun a ha => h.attr ha) (attrs_of_chunk hput) tbc

/-- The rest of the body is done with the table of a chunk. -/
theorem dupLoop_chunk (h : ChunkFits e attrs)
    (hput : (chunkAttr e attrs).bytes e <+: mem.drop pos)
    (hstop : pos + (chunkAttr e attrs).size ≤ stop) (tbc : AttrTable) (region : RegionBytes) :
    (dupLoop e alloc mem stop).step ⟨pos, tbc, region⟩ =
      match attrTable devlinkAttrMax attrs (pos + 4) tbc with
      | none => .inr .fault
      | some tbc' => dupChunk e alloc mem tbc' region := by
  obtain ⟨hok, hparse⟩ := chunk_parse h hput hstop tbc
  simp only [dupLoop, hok, not_true_eq_false, if_false, hparse]

/-- The address attribute in memory. -/
theorem addr_at (h : ChunkFits e attrs) (hput : attrsBytes e attrs <+: mem.drop pos) {place : Nat}
    (hplace : lastAttr devlinkAttrRegionChunkAddr attrs pos = some place) :
    ∃ front a back, attrs = front ++ a :: back ∧ a.type = devlinkAttrRegionChunkAddr ∧
      (∀ b ∈ back, b.type ≠ devlinkAttrRegionChunkAddr) ∧ a.payload.length = 8 ∧
      attrNext e mem place = pos + attrsSize front + 12 ∧ ¬mem.length < place + 12 ∧
      e.get64 (mem.drop (place + 4)) = e.get64 a.payload ∧
      nlaFind attrs devlinkAttrRegionChunkAddr = some a.payload := by
  obtain ⟨front, a, back, hattrs, htype, hback, hpos, hat, -, hnext, hfind⟩ :=
    lastAttr_at (fun a ha => h.attr ha) hput hplace
  have hlength := h.addr a (by simp [hattrs]) htype
  have hsize : a.size = 12 := by
    rw [NlAttribute.size, hlength]
    rfl
  refine ⟨front, a, back, hattrs, htype, hback, hlength, ?_, ?_, ?_, hfind⟩
  · rw [hnext, hsize, hpos]
  · have hle := hat.length_le
    rw [NlAttribute.bytes_length, hsize, List.length_drop] at hle
    omega
  · obtain ⟨rest, hrest⟩ := payload_at hat
    rw [← hrest, e.get64_append hlength]

/-- The rest of the body where both attributes are in the table. -/
theorem dupChunk_eq {tbc : AttrTable} {data addr : Nat}
    (hdata : tbc devlinkAttrRegionChunkData = some data)
    (haddr : tbc devlinkAttrRegionChunkAddr = some addr) (hin : ¬mem.length < addr + 12)
    (halloc : ∀ n, alloc n = true) (region : RegionBytes) :
    let chunk := attrPayload e mem data
    let offs := e.get64 (mem.drop (addr + 4))
    let size := (offs + BitVec.ofNat 64 chunk.length).toNat
    dupChunk e alloc mem tbc region =
      if (region.grow size).length < offs.toNat + chunk.length then .inr .fault
      else .inl ⟨attrNext e mem addr, tbc, (region.grow size).copy offs.toNat chunk⟩ := by
  unfold dupChunk
  simp only [hdata, haddr, if_neg hin, halloc, Bool.true_eq_false, and_false, if_false]

/-- The layout of a chunk, in terms of its attributes. -/
theorem layoutOk_iff (attrs : List NlAttribute) :
    LayoutOk (layout attrs) ↔ (∃ a ∈ attrs, a.type = devlinkAttrRegionChunkData) ∧
      (∃ front a, attrs = front ++ [a] ∧ a.type = devlinkAttrRegionChunkAddr) ∧
      ∀ a ∈ attrs, a.type ≤ devlinkAttrMax := by
  constructor
  · rintro ⟨hdata, haddr, hknown⟩
    refine ⟨by simpa [layout] using hdata, ?_, by simpa [layout] using hknown⟩
    rw [layout, List.getLast?_map, Option.map_eq_some_iff] at haddr
    obtain ⟨a, ha, htype⟩ := haddr
    obtain ⟨front, rfl⟩ := List.getLast?_eq_some_iff.mp ha
    exact ⟨front, a, rfl, htype⟩
  · rintro ⟨hdata, haddr, hknown⟩
    refine ⟨List.mem_map.mpr hdata, ?_, fun type htype => ?_⟩
    · obtain ⟨front, a, rfl, htype⟩ := haddr
      simp [layout, htype]
    · obtain ⟨a, ha, rfl⟩ := List.mem_map.mp htype
      exact hknown a ha

/-- The state in front of the next chunk. -/
structure Behind (e : Endian) (mem : List Byte) (pos : Nat) (tbc : AttrTable) : Prop where
  data : (tbc devlinkAttrRegionChunkData).isSome
  addr : ∃ addr, tbc devlinkAttrRegionChunkAddr = some addr ∧ attrNext e mem addr = pos

/-- A chunk with data and the address last is copied, and the loop goes on behind
it. -/
theorem dupLoop_good (halloc : ∀ n, alloc n = true) (h : ChunkFits e attrs)
    (hgood : LayoutOk (layout attrs)) (hput : (chunkAttr e attrs).bytes e <+: mem.drop pos)
    (hstop : pos + (chunkAttr e attrs).size ≤ stop) (tbc : AttrTable) (region : RegionBytes) :
    ∃ k tbc', chunkOf e attrs = some k ∧ Behind e mem (pos + (chunkAttr e attrs).size) tbc' ∧
      (dupLoop e alloc mem stop).step ⟨pos, tbc, region⟩ =
        .inl ⟨pos + (chunkAttr e attrs).size, tbc', (region.grow k.stop).copy k.addr k.data⟩ := by
  obtain ⟨⟨b, hb, hbtype⟩, ⟨front', a', hlast, hlasttype⟩, hknown⟩ := (layoutOk_iff attrs).mp hgood
  have hattrs := attrs_of_chunk hput
  obtain ⟨tbc', htable⟩ := Option.isSome_iff_exists.mp
    ((attrTable_isSome_iff devlinkAttrMax attrs (pos + 4) tbc).mpr hknown)
  -- the places of the two attributes
  obtain ⟨data, hdata⟩ : ∃ p, lastAttr devlinkAttrRegionChunkData attrs (pos + 4) = some p :=
    Option.ne_none_iff_exists'.mp fun hnone => (lastAttr_eq_none_iff _ _ _).mp hnone b hb hbtype
  obtain ⟨addr, haddr⟩ : ∃ p, lastAttr devlinkAttrRegionChunkAddr attrs (pos + 4) = some p :=
    Option.ne_none_iff_exists'.mp fun hnone =>
      (lastAttr_eq_none_iff _ _ _).mp hnone a' (by simp [hlast]) hlasttype
  obtain ⟨_, d, _, -, -, -, -, -, hpayload, -, hdfind⟩ :=
    lastAttr_at (fun a ha => h.attr ha) hattrs hdata
  obtain ⟨front, a, back, hsplit, -, hback, hlength, hnext, hin, hget, hafind⟩ :=
    addr_at h hattrs haddr
  have htdata : tbc' devlinkAttrRegionChunkData = some data := by
    rw [attrTable_apply htable, hdata, Option.some_or]
  have htaddr : tbc' devlinkAttrRegionChunkAddr = some addr := by
    rw [attrTable_apply htable, haddr, Option.some_or]
  -- nothing stands behind the address
  obtain rfl : back = [] := by
    rcases List.eq_nil_or_concat back with hnil | ⟨back', z, rfl⟩
    · exact hnil
    · have hends : front ++ a :: back' ++ [z] = front' ++ [a'] := by
        rw [← hlast, hsplit, List.concat_eq_append, List.append_assoc, List.cons_append]
      obtain rfl : z = a' := List.singleton_inj.mp (List.append_inj' hends rfl).2
      exact absurd hlasttype (hback z (by simp))
  have hend : attrNext e mem addr = pos + (chunkAttr e attrs).size := by
    have hsize : attrsSize [a] = 12 := by
      rw [attrsSize, List.map_singleton, List.sum_singleton, NlAttribute.size, hlength]
      rfl
    rw [hnext, chunkAttr_size, hsplit, attrsSize_append, hsize]
    omega
  have hk : chunkOf e attrs = some ⟨(e.get64 a.payload).toNat, d.payload⟩ := by
    simp only [chunkOf, hdfind, hafind, Option.bind_eq_bind, Option.bind_some]
  have hbound := h.bounded _ hk
  simp only [RegionChunk.stop] at hbound
  refine ⟨_, tbc', hk, ⟨by rw [htdata]; rfl, addr, htaddr, hend⟩, ?_⟩
  have hsum : (e.get64 a.payload + BitVec.ofNat 64 d.payload.length).toNat =
      (e.get64 a.payload).toNat + d.payload.length := by
    rw [BitVec.toNat_add, BitVec.toNat_ofNat]
    omega
  have hroom := region.grow_length ((e.get64 a.payload).toNat + d.payload.length)
  have hfits : ¬(region.grow ((e.get64 a.payload).toNat + d.payload.length)).length <
      (e.get64 a.payload).toNat + d.payload.length := by omega
  have hbody := dupChunk_eq (e := e) htdata htaddr hin halloc region
  simp only [hget, hpayload, hsum, if_neg hfits, hend] at hbody
  rw [dupLoop_chunk h hput hstop, htable]
  exact hbody

end Chunk

/-! ## One reply -/

/-- The first chunk of a nest stands in front of the others. -/
theorem chunkAttrs_tail {c : List NlAttribute} {cs : List (List NlAttribute)} {pos : Nat}
    (hput : attrsBytes e ((c :: cs).map (chunkAttr e)) <+: mem.drop pos) :
    (chunkAttr e c).bytes e <+: mem.drop pos ∧
      attrsBytes e (cs.map (chunkAttr e)) <+: mem.drop (pos + (chunkAttr e c).size) := by
  rw [List.map_cons] at hput
  exact attrs_tail hput

/-- The loop puts chunks to those before them. -/
theorem dupLoop_reassembled (halloc : ∀ n, alloc n = true) {cs : List (List NlAttribute)}
    (hfits : ∀ c ∈ cs, ChunkFits e c) (hgood : ∀ c ∈ cs, LayoutOk (layout c)) {pos : Nat}
    (hput : attrsBytes e (cs.map (chunkAttr e)) <+: mem.drop pos) (tbc : AttrTable)
    {done : List RegionChunk} {region : RegionBytes} (hdone : Reassembled done region) :
    ∃ region', (dupLoop e alloc mem (pos + attrsSize (cs.map (chunkAttr e)))).Halts
        ⟨pos, tbc, region⟩ (.returned .ok region') ∧
      Reassembled (done ++ cs.filterMap (chunkOf e)) region' := by
  induction cs generalizing pos tbc done region with
  | nil =>
      have hend : ¬AttrOk e mem pos (pos + attrsSize ([].map (chunkAttr e))) := by
        rintro ⟨hpos, -⟩
        simp only [List.map_nil, attrsSize, List.sum_nil] at hpos
        omega
      refine ⟨region, Machine.Halts.single ?_, by simpa using hdone⟩
      simp only [dupLoop, hend, not_false_eq_true, if_true]
  | cons c cs ih =>
      obtain ⟨hhead, htail⟩ := chunkAttrs_tail hput
      have hstop : pos + attrsSize ((c :: cs).map (chunkAttr e)) =
          pos + (chunkAttr e c).size + attrsSize (cs.map (chunkAttr e)) := by
        rw [List.map_cons, attrsSize_cons, Nat.add_assoc]
      rw [hstop]
      obtain ⟨k, tbc', hk, -, hstep⟩ := dupLoop_good halloc (hfits c List.mem_cons_self)
        (hgood c List.mem_cons_self) hhead (Nat.le_add_right _ _) tbc region
      obtain ⟨region', hhalts, hall⟩ := ih (fun c' hc' => hfits c' (List.mem_cons_of_mem _ hc'))
        (fun c' hc' => hgood c' (List.mem_cons_of_mem _ hc')) htail tbc' (hdone.append k)
      refine ⟨region', (Machine.Reaches.single hstep).halts hhalts, ?_⟩
      rw [List.filterMap_cons_some hk]
      simpa using hall

/-- The chunks of a valid reply. -/
theorem RegionReply.Valid.chunkFits {r : RegionReply} (h : r.Valid e) :
    ∀ c ∈ r.chunks, ChunkFits e c := by
  intro c hc
  have hin : chunkAttr e c ∈ r.chunks.map (chunkAttr e) := List.mem_map_of_mem hc
  have hsize := size_le_attrsSize hin
  have hnest := h.fits.length
  simp only [chunksAttr, attrsBytes_length] at hnest
  rw [chunkAttr_size] at hsize
  exact ⟨by omega, h.types c hc, h.addr c hc, h.bounded c hc⟩

/-- The attributes of a valid reply fit. -/
theorem RegionReply.Valid.attrFits {r : RegionReply} (h : r.Valid e) :
    ∀ a ∈ r.before ++ chunksAttr e r.chunks :: r.after, a.Fits := by
  intro a ha
  rw [List.mem_append, List.mem_cons] at ha
  rcases ha with ha | rfl | ha
  · exact (h.other a (List.mem_append_left _ ha)).1
  · exact h.fits
  · exact (h.other a (List.mem_append_right _ ha)).1

/-- The table of a valid reply. -/
theorem RegionReply.Valid.parse {r : RegionReply} (h : r.Valid e) :
    attrParse e (r.bytes e) devlinkAttrMax 0 (r.bytes e).length emptyTable =
      attrTable devlinkAttrMax (r.before ++ chunksAttr e r.chunks :: r.after) 0 emptyTable := by
  have hparse : attrParse e (r.bytes e) devlinkAttrMax 0 (0 + attrsSize _) emptyTable = _ :=
    attrParse_attrs devlinkAttrMax h.attrFits (List.prefix_refl _) emptyTable
  rw [Nat.zero_add] at hparse
  rw [RegionReply.bytes, attrsBytes_length]
  exact hparse

/-- The table is complete where there is room for the attributes. -/
theorem RegionReply.table_isSome_iff (e : Endian) (r : RegionReply) :
    (attrTable devlinkAttrMax (r.before ++ chunksAttr e r.chunks :: r.after) 0
      emptyTable).isSome ↔ ∀ a ∈ r.before ++ r.after, a.type ≤ devlinkAttrMax := by
  have hchunks : (chunksAttr e r.chunks).type ≤ devlinkAttrMax := by
    change devlinkAttrRegionChunks ≤ devlinkAttrMax
    decide
  rw [attrTable_isSome_iff]
  simp only [List.mem_append, List.mem_cons]
  constructor
  · intro hall a ha
    exact hall a (ha.imp_right Or.inr)
  · rintro hall a (ha | rfl | ha)
    · exact hall a (Or.inl ha)
    · exact hchunks
    · exact hall a (Or.inr ha)

/-- The names of a valid reply and its chunks are found. -/
theorem RegionReply.Valid.found {r : RegionReply} (h : r.Valid e) {tb : AttrTable}
    (htable : attrTable devlinkAttrMax (r.before ++ chunksAttr e r.chunks :: r.after) 0
      emptyTable = some tb) :
    (tb devlinkAttrBusName).isSome ∧ (tb devlinkAttrDevName).isSome ∧
      tb devlinkAttrRegionChunks = some (attrsSize r.before) := by
  have happly (type : BitVec 16) : tb type =
      lastAttr type (r.before ++ chunksAttr e r.chunks :: r.after) 0 := by
    rw [attrTable_apply htable]
    exact Option.or_none
  have hnamed {type : BitVec 16} (hname : ∃ a ∈ r.before ++ r.after, a.type = type) :
      (tb type).isSome := by
    obtain ⟨a, ha, htype⟩ := hname
    rw [happly]
    refine Option.isSome_iff_ne_none.mpr fun hnone => ?_
    refine (lastAttr_eq_none_iff _ _ _).mp hnone a ?_ htype
    rw [List.mem_append, List.mem_cons]
    exact (List.mem_append.mp ha).imp_right Or.inr
  refine ⟨hnamed h.busName, hnamed h.devName, ?_⟩
  have hchunks : (chunksAttr e r.chunks).type = devlinkAttrRegionChunks := rfl
  have hafter : ∀ b ∈ r.after, b.type ≠ devlinkAttrRegionChunks :=
    fun b hb => (h.other b (List.mem_append_right _ hb)).2
  rw [happly, lastAttr_split r.before hchunks hafter, Nat.zero_add]

/-- Where the attribute of the chunks stands. -/
theorem RegionReply.chunksAttr_at (e : Endian) (r : RegionReply) :
    (chunksAttr e r.chunks).bytes e <+: (r.bytes e).drop (attrsSize r.before) := by
  have hmiddle : (chunksAttr e r.chunks).bytes e <+: (r.bytes e).drop (0 + attrsSize r.before) :=
    attrs_middle (List.prefix_refl _)
  rwa [Nat.zero_add] at hmiddle

/-- Where the chunks stand. -/
theorem RegionReply.chunks_at (e : Endian) (r : RegionReply) :
    attrsBytes e (r.chunks.map (chunkAttr e)) <+: (r.bytes e).drop (attrsSize r.before + 4) :=
  payload_at (r.chunksAttr_at e)

/-- The callback on a valid reply with attributes the client has room for is the
loop over its chunks. -/
theorem devlinkRegionDupCb_valid {r : RegionReply} (h : r.Valid e)
    (hknown : ∀ a ∈ r.before ++ r.after, a.type ≤ devlinkAttrMax) (region : RegionBytes)
    (res : DupResult) : DevlinkRegionDupCb e alloc (r.bytes e) region res ↔
      (dupLoop e alloc (r.bytes e)
        (attrsSize r.before + 4 + attrsSize (r.chunks.map (chunkAttr e)))).Halts
        ⟨attrsSize r.before + 4, emptyTable, region⟩ res := by
  obtain ⟨tb, htable⟩ := Option.isSome_iff_exists.mp ((r.table_isSome_iff e).mpr hknown)
  obtain ⟨hbus, hdev, hchunks⟩ := h.found htable
  obtain ⟨bus, hbus⟩ := Option.isSome_iff_exists.mp hbus
  obtain ⟨dev, hdev⟩ := Option.isSome_iff_exists.mp hdev
  have hlen := (attr_at h.fits (r.chunksAttr_at e)).1
  simp only [chunksAttr, attrsBytes_length] at hlen
  simp only [DevlinkRegionDupCb, h.parse, htable, hbus, hdev, hchunks, hlen, Nat.add_assoc]

/-- A valid reply with an attribute the client has no room for. -/
theorem devlinkRegionDupCb_unknown {r : RegionReply} (h : r.Valid e)
    (hunknown : ¬∀ a ∈ r.before ++ r.after, a.type ≤ devlinkAttrMax) (region : RegionBytes)
    (res : DupResult) :
    DevlinkRegionDupCb e alloc (r.bytes e) region res ↔ res = .fault := by
  have hnone := Option.not_isSome_iff_eq_none.mp (mt (r.table_isSome_iff e).mp hunknown)
  simp only [DevlinkRegionDupCb, h.parse, hnone]

/-- The chunks of replies are those of the first and of the rest. -/
theorem allChunks_cons (e : Endian) (r : RegionReply) (replies : List RegionReply) :
    allChunks e (r :: replies) = r.chunks.filterMap (chunkOf e) ++ allChunks e replies :=
  List.flatMap_cons

/-- Chunks with data and an address, the address last, are put together. -/
theorem dupReplies_reassembled (halloc : ∀ n, alloc n = true) {replies : List RegionReply}
    (hvalid : ∀ r ∈ replies, r.Valid e)
    (hgood : ∀ r ∈ replies, ReplyOk r) {done : List RegionChunk}
    {region : RegionBytes} (hdone : Reassembled done region) :
    ∃ region', DupReplies e alloc (replies.map (·.bytes e)) region region' ∧
      Reassembled (done ++ allChunks e replies) region' := by
  induction replies generalizing done region with
  | nil => exact ⟨region, .nil region, by simpa [allChunks] using hdone⟩
  | cons r replies ih =>
      have hr := hvalid r List.mem_cons_self
      obtain ⟨mid, hhalts, hmid⟩ := dupLoop_reassembled halloc hr.chunkFits
        (hgood r List.mem_cons_self).chunks (r.chunks_at e) emptyTable hdone
      obtain ⟨region', hrest, hall⟩ := ih (fun r' hr' => hvalid r' (List.mem_cons_of_mem _ hr'))
        (fun r' hr' => hgood r' (List.mem_cons_of_mem _ hr')) hmid
      have hhead := (devlinkRegionDupCb_valid hr (hgood r List.mem_cons_self).known region _).mpr
        hhalts
      refine ⟨region', .cons hhead hrest, ?_⟩
      rwa [allChunks_cons, ← List.append_assoc]

/-! ## Other layouts -/

/-- A chunk is written where the body does not end the loop: the loop goes on
behind the address, and the region has its place. -/
theorem dupChunk_cases (e : Endian) (alloc : Nat → Bool) (mem : List Byte) (tbc : AttrTable)
    (region : RegionBytes) :
    (∃ r, dupChunk e alloc mem tbc region = .inr r ∧ ∀ region', r ≠ .returned .ok region') ∨
    ∃ data addr region', tbc devlinkAttrRegionChunkData = some data ∧
      tbc devlinkAttrRegionChunkAddr = some addr ∧
      dupChunk e alloc mem tbc region = .inl ⟨attrNext e mem addr, tbc, region'⟩ ∧
      region'.length = max region.length (e.get64 (mem.drop (addr + 4)) +
        BitVec.ofNat 64 (attrPayload e mem data).length).toNat := by
  unfold dupChunk
  split
  · exact Or.inl ⟨.fault, rfl, fun _ h => nomatch h⟩
  · exact Or.inl ⟨.fault, rfl, fun _ h => nomatch h⟩
  · rename_i data addr hdata haddr
    dsimp only
    split_ifs with hin hfail hroom
    · exact Or.inl ⟨.fault, rfl, fun _ h => nomatch h⟩
    · exact Or.inl ⟨.returned .error [], rfl, fun _ h => nomatch h⟩
    · exact Or.inl ⟨.fault, rfl, fun _ h => nomatch h⟩
    · refine Or.inr ⟨data, addr, _, hdata, haddr, rfl, ?_⟩
      rw [RegionBytes.copy_length (Nat.not_lt.mp hroom), RegionBytes.grow_length]

/-- What the loop does at a place: it returns behind the chunks, and else it
fails, or it writes what the table has and goes on behind the address. -/
theorem dupLoop_cases (e : Endian) (alloc : Nat → Bool) (mem : List Byte) (stop : Nat)
    (s : DupState) :
    (¬AttrOk e mem s.attr stop ∧
      (dupLoop e alloc mem stop).step s = .inr (.returned .ok s.region)) ∨
    AttrOk e mem s.attr stop ∧
      ((∃ r, (dupLoop e alloc mem stop).step s = .inr r ∧ ∀ region', r ≠ .returned .ok region') ∨
      ∃ tbc data addr region',
        attrParse e mem devlinkAttrMax (s.attr + 4) (s.attr + attrLen e mem s.attr) s.tbc =
          some tbc ∧
        tbc devlinkAttrRegionChunkData = some data ∧ tbc devlinkAttrRegionChunkAddr = some addr ∧
        (dupLoop e alloc mem stop).step s = .inl ⟨attrNext e mem addr, tbc, region'⟩ ∧
        region'.length = max s.region.length (e.get64 (mem.drop (addr + 4)) +
          BitVec.ofNat 64 (attrPayload e mem data).length).toNat) := by
  by_cases hok : AttrOk e mem s.attr stop
  · refine Or.inr ⟨hok, ?_⟩
    simp only [dupLoop, hok, not_true_eq_false, if_false]
    cases attrParse e mem devlinkAttrMax (s.attr + 4) (s.attr + attrLen e mem s.attr) s.tbc with
    | none => exact Or.inl ⟨.fault, rfl, fun _ h => nomatch h⟩
    | some tbc =>
        refine (dupChunk_cases e alloc mem tbc s.region).imp_right ?_
        rintro ⟨data, addr, region', hdata, haddr, hstep, hlength⟩
        exact ⟨tbc, data, addr, region', rfl, hdata, haddr, hstep, hlength⟩
  · exact Or.inl ⟨hok, by simp only [dupLoop, hok, not_false_eq_true, if_true]⟩

/-- The region never shrinks. -/
theorem dupLoop_length {stop : Nat} {s : DupState} {region' : RegionBytes}
    (h : (dupLoop e alloc mem stop).Halts s (.returned .ok region')) :
    s.region.length ≤ region'.length := by
  refine Machine.Halts.invariant (I := fun t => s.region.length ≤ t.region.length)
    (Q := fun r => ∀ region', r = .returned .ok region' → s.region.length ≤ region'.length)
    (fun t t' ht hstep => ?_) (fun t r ht hstep => ?_) (Nat.le_refl _) h _ rfl
  · rcases dupLoop_cases e alloc mem stop t with ⟨-, hret⟩ | ⟨-, ⟨r, hr, -⟩ |
      ⟨tbc, data, addr, next, -, -, -, hgo, hlength⟩⟩
    · rw [hret] at hstep
      cases hstep
    · rw [hr] at hstep
      cases hstep
    · rw [hgo] at hstep
      cases hstep
      exact ht.trans (hlength ▸ Nat.le_max_left _ _)
  · rcases dupLoop_cases e alloc mem stop t with ⟨-, hret⟩ | ⟨-, ⟨r', hr, hne⟩ |
      ⟨tbc, data, addr, next, -, -, -, hgo, -⟩⟩
    · rw [hret] at hstep
      rintro region' rfl
      cases hstep
      exact ht
    · rw [hr] at hstep
      cases hstep
      exact fun region' hr => absurd hr (hne region')
    · rw [hgo] at hstep
      cases hstep

/-- Where parsing leaves the table as it is and the address stands before the
cursor, the loop does not get on. -/
theorem dupLoop_stuck {pos stop : Nat} {tbc : AttrTable} (hok : AttrOk e mem pos stop)
    (hparse : attrParse e mem devlinkAttrMax (pos + 4) (pos + attrLen e mem pos) tbc = some tbc)
    (hnext : ∀ addr, tbc devlinkAttrRegionChunkAddr = some addr → attrNext e mem addr = pos)
    (region region' : RegionBytes) :
    ¬(dupLoop e alloc mem stop).Halts ⟨pos, tbc, region⟩ (.returned .ok region') := by
  intro h
  refine Machine.Halts.invariant (I := fun s => s.attr = pos ∧ s.tbc = tbc)
    (Q := fun r => ∀ region', r ≠ .returned .ok region')
    (fun s s' hs hstep => ?_) (fun s r hs hstep => ?_) ⟨rfl, rfl⟩ h region' rfl
  · obtain ⟨rfl, rfl⟩ := hs
    rcases dupLoop_cases e alloc mem stop s with ⟨hnot, -⟩ | ⟨-, ⟨r, hr, -⟩ |
      ⟨tbc, data, addr, next, htbc, -, haddr, hgo, -⟩⟩
    · exact absurd hok hnot
    · rw [hr] at hstep
      cases hstep
    · obtain rfl : s.tbc = tbc := Option.some.inj (hparse.symm.trans htbc)
      rw [hgo] at hstep
      cases hstep
      exact ⟨hnext addr haddr, rfl⟩
  · obtain ⟨rfl, rfl⟩ := hs
    rcases dupLoop_cases e alloc mem stop s with ⟨hnot, -⟩ | ⟨-, ⟨r', hr, hne⟩ |
      ⟨tbc, data, addr, next, -, -, -, hgo, -⟩⟩
    · exact absurd hok hnot
    · rw [hr] at hstep
      cases hstep
      exact hne
    · rw [hgo] at hstep
      cases hstep

/-! ## Contents that show the layout -/

/-- An attribute of a chunk that is empty if it is not an address. -/
def blankAttr (e : Endian) (offs : BitVec 64) (type : BitVec 16) : NlAttribute :=
  ⟨type, if type = devlinkAttrRegionChunkAddr then e.put64 offs else []⟩

/-- A chunk without contents.  Its address is past the start of the region if it
has no data. -/
def blankChunk (e : Endian) (types : List (BitVec 16)) : List NlAttribute :=
  types.map (blankAttr e (if devlinkAttrRegionChunkData ∈ types then 0 else 1))

/-- A reply with chunks without contents. -/
def RegionReply.blank (e : Endian) (r : RegionReply) : RegionReply :=
  ⟨r.before, r.chunks.map fun c => blankChunk e (layout c), r.after⟩

/-- A chunk without contents has the layout it is made for. -/
theorem layout_blankChunk (e : Endian) (types : List (BitVec 16)) :
    layout (blankChunk e types) = types := by
  rw [layout, blankChunk, List.map_map]
  exact List.map_id' types

/-- The contents of such a chunk. -/
theorem mem_blankChunk {types : List (BitVec 16)} {a : NlAttribute}
    (h : a ∈ blankChunk e types) :
    (a.type = devlinkAttrRegionChunkAddr →
      a.payload = e.put64 (if devlinkAttrRegionChunkData ∈ types then 0 else 1)) ∧
    (a.type ≠ devlinkAttrRegionChunkAddr → a.payload = []) := by
  obtain ⟨type, -, rfl⟩ := List.mem_map.mp h
  exact ⟨fun htype => if_pos htype, fun htype => if_neg htype⟩

/-- A reply without contents has the layout of the reply. -/
theorem SameLayout.blank (e : Endian) (r : RegionReply) : SameLayout r (r.blank e) := by
  refine ⟨rfl, rfl, ?_⟩
  rw [RegionReply.blank, List.map_map]
  exact List.map_congr_left fun c _ => layout_blankChunk e (layout c)

/-- Blank contents take no more room than others. -/
theorem blankChunk_size {attrs : List NlAttribute}
    (h : ∀ a ∈ attrs, a.type = devlinkAttrRegionChunkAddr → a.payload.length = 8) :
    attrsSize (blankChunk e (layout attrs)) ≤ attrsSize attrs := by
  rw [attrsSize, attrsSize, blankChunk, layout, List.map_map, List.map_map]
  refine List.sum_le_sum fun a ha => ?_
  change 4 + align4 (if a.type = devlinkAttrRegionChunkAddr then e.put64 _ else []).length ≤
    4 + align4 a.payload.length
  by_cases htype : a.type = devlinkAttrRegionChunkAddr
  · rw [if_pos htype, h a ha htype, Endian.put64_length]
  · rw [if_neg htype]
    exact Nat.add_le_add_left (Nat.zero_le _) 4

/-- Chunks without contents end where the region starts. -/
theorem chunkOf_blankChunk {types : List (BitVec 16)} {k : RegionChunk}
    (h : chunkOf e (blankChunk e types) = some k) : k.stop = 0 := by
  simp only [chunkOf, Option.bind_eq_bind, Option.bind_eq_some_iff, Option.some.injEq] at h
  obtain ⟨data, hdata, addr, haddr, rfl⟩ := h
  obtain ⟨d, hd, hdtype, rfl⟩ := nlaFind_mem hdata
  obtain ⟨a, ha, hatype, rfl⟩ := nlaFind_mem haddr
  have hin : devlinkAttrRegionChunkData ∈ types := by
    rw [← layout_blankChunk e types]
    exact hdtype ▸ List.mem_map_of_mem hd
  have hne : d.type ≠ devlinkAttrRegionChunkAddr := by
    rw [hdtype]
    decide
  have hget := Endian.get64_put64 e 0 []
  rw [List.append_nil] at hget
  rw [RegionChunk.stop, (mem_blankChunk hd).2 hne, (mem_blankChunk ha).1 hatype, if_pos hin, hget]
  rfl

/-- A valid reply without contents is valid. -/
theorem RegionReply.Valid.blank {r : RegionReply} (h : r.Valid e) : (r.blank e).Valid e := by
  have hmem {c : List NlAttribute} (hc : c ∈ (r.blank e).chunks) :
      ∃ c₀ ∈ r.chunks, c = blankChunk e (layout c₀) := by
    obtain ⟨c₀, hc₀, rfl⟩ := List.mem_map.mp hc
    exact ⟨c₀, hc₀, rfl⟩
  refine ⟨h.busName, h.devName, h.other, ⟨?_, h.fits.type⟩, ?_, ?_, ?_⟩
  · have hlength := h.fits.length
    simp only [chunksAttr, attrsBytes_length, RegionReply.blank, List.map_map] at hlength ⊢
    refine lt_of_le_of_lt (Nat.add_le_add_left ?_ 4) hlength
    rw [attrsSize, attrsSize, List.map_map, List.map_map]
    refine List.sum_le_sum fun c hc => ?_
    change (chunkAttr e (blankChunk e (layout c))).size ≤ (chunkAttr e c).size
    rw [chunkAttr_size, chunkAttr_size]
    exact Nat.add_le_add_left (blankChunk_size (h.addr c hc)) 4
  · intro c hc a ha
    obtain ⟨c₀, hc₀, rfl⟩ := hmem hc
    obtain ⟨type, htype, rfl⟩ := List.mem_map.mp ha
    obtain ⟨a₀, ha₀, rfl⟩ := List.mem_map.mp htype
    exact h.types c₀ hc₀ a₀ ha₀
  · intro c hc a ha htype
    obtain ⟨c₀, -, rfl⟩ := hmem hc
    rw [(mem_blankChunk ha).1 htype, Endian.put64_length]
  · intro c hc k hk
    obtain ⟨c₀, -, rfl⟩ := hmem hc
    rw [chunkOf_blankChunk hk]
    exact Nat.two_pow_pos 64

/-- Without an address of its own a chunk is read with that of the chunk before,
which it stands behind. -/
theorem dupLoop_no_addr {c : List NlAttribute} {pos stop : Nat} (hfits : ChunkFits e c)
    (hput : (chunkAttr e c).bytes e <+: mem.drop pos) (hstop : pos + (chunkAttr e c).size ≤ stop)
    (hnone : lastAttr devlinkAttrRegionChunkAddr c (pos + 4) = none) {tbc tbc' : AttrTable}
    (htable : attrTable devlinkAttrMax c (pos + 4) tbc = some tbc') {addr : Nat}
    (haddr : tbc devlinkAttrRegionChunkAddr = some addr) (hnext : attrNext e mem addr = pos)
    (region region' : RegionBytes) :
    ¬(dupLoop e alloc mem stop).Halts ⟨pos, tbc', region⟩ (.returned .ok region') := by
  obtain ⟨hok, hagain⟩ := chunk_parse hfits hput hstop tbc'
  rw [attrTable_again htable] at hagain
  refine dupLoop_stuck hok hagain (fun addr' haddr' => ?_) region region'
  rw [attrTable_apply htable, hnone, Option.none_or, haddr] at haddr'
  exact Option.some.inj haddr' ▸ hnext

/-- At an empty attribute behind the address the loop does not get on. -/
theorem dupLoop_inside {b : NlAttribute} {stop addr : Nat} (hfits : b.Fits)
    (hempty : b.payload = []) (hput : b.bytes e <+: mem.drop (attrNext e mem addr))
    (hstop : attrNext e mem addr + b.size ≤ stop) {tbc : AttrTable}
    (haddr : tbc devlinkAttrRegionChunkAddr = some addr) (region region' : RegionBytes) :
    ¬(dupLoop e alloc mem stop).Halts ⟨attrNext e mem addr, tbc, region⟩
      (.returned .ok region') := by
  obtain ⟨hlen, -, -, -⟩ := attr_at hfits hput
  rw [hempty, List.length_nil, Nat.add_zero] at hlen
  have hok : AttrOk e mem (attrNext e mem addr) stop := by
    rw [NlAttribute.size] at hstop
    rw [AttrOk, hlen]
    omega
  have hend : ¬AttrOk e mem (attrNext e mem addr + 4) (attrNext e mem addr + 4) := by
    rintro ⟨hlt, -⟩
    omega
  refine dupLoop_stuck hok ?_ (fun addr' haddr' => ?_) region region'
  · rw [hlen, attrParse, dif_neg hend]
  · rw [haddr] at haddr'
    exact Option.some.inj haddr' ▸ rfl

/-- A payload has less bytes than 16 bits can count. -/
theorem attrPayload_lt (e : Endian) (mem : List Byte) (pos : Nat) :
    (attrPayload e mem pos).length < 2 ^ 16 := by
  have hlt := (e.get16 (mem.drop pos)).isLt
  rw [attrPayload, List.length_take, attrLen]
  omega

/-- An address of one is past the start, whatever the length of the data. -/
theorem one_add_payload_pos (e : Endian) (mem : List Byte) (data : Nat) :
    0 < (1 + BitVec.ofNat 64 (attrPayload e mem data).length).toNat := by
  have hshort := attrPayload_lt e mem data
  rw [BitVec.toNat_add, BitVec.toNat_ofNat]
  simp only [BitVec.reduceToNat]
  omega

/-- Without contents, an address stands for one where there is no data. -/
theorem get64_blankChunk {types : List (BitVec 16)} {a : NlAttribute}
    (h : a ∈ blankChunk e types) (htype : a.type = devlinkAttrRegionChunkAddr)
    (hnodata : devlinkAttrRegionChunkData ∉ types) : e.get64 a.payload = 1 := by
  have hput := Endian.get64_put64 e 1 []
  rw [List.append_nil] at hput
  rw [(mem_blankChunk h).1 htype, if_neg hnodata, hput]

/-- With another attribute of the chunk behind the address, and that one empty,
the loop does not get on. -/
theorem dupLoop_behind_addr {front back : List NlAttribute} {a b : NlAttribute} {pos stop : Nat}
    (hfits : b.Fits) (hempty : b.payload = [])
    (hput : attrsBytes e (front ++ a :: b :: back) <+: mem.drop (pos + 4))
    (hstop : pos + (chunkAttr e (front ++ a :: b :: back)).size ≤ stop) {addr : Nat}
    (hplace : attrNext e mem addr = pos + 4 + attrsSize (front ++ [a])) {tbc : AttrTable}
    (haddr : tbc devlinkAttrRegionChunkAddr = some addr) (region region' : RegionBytes) :
    ¬(dupLoop e alloc mem stop).Halts ⟨attrNext e mem addr, tbc, region⟩
      (.returned .ok region') := by
  have hat : b.bytes e <+: mem.drop (attrNext e mem addr) := by
    rw [List.append_cons] at hput
    rw [hplace]
    exact attrs_middle hput
  have hinside : attrNext e mem addr + b.size ≤ stop := by
    rw [chunkAttr_size, List.append_cons, attrsSize_append, attrsSize_cons] at hstop
    omega
  exact dupLoop_inside hfits hempty hat hinside haddr region region'

/-- A chunk without contents that cannot be told apart: if the loop gets through,
it has written behind the start of the region. -/
theorem dupLoop_blank_bad {c : List NlAttribute} {pos stop : Nat} (hfits : ChunkFits e c)
    (hblank : blankChunk e (layout c) = c) (hbad : ¬LayoutOk (layout c))
    (hput : (chunkAttr e c).bytes e <+: mem.drop pos) (hstop : pos + (chunkAttr e c).size ≤ stop)
    {tbc : AttrTable} (htbc : tbc = emptyTable ∨ Behind e mem pos tbc)
    {region region' : RegionBytes}
    (h : (dupLoop e alloc mem stop).Halts ⟨pos, tbc, region⟩ (.returned .ok region')) :
    0 < region'.length := by
  obtain ⟨hok, hparse⟩ := chunk_parse hfits hput hstop tbc
  rcases dupLoop_cases e alloc mem stop ⟨pos, tbc, region⟩ with ⟨hnot, -⟩ | ⟨-, ⟨r, hr, hne⟩ |
    ⟨tbc', data, addr, next, htable, hdata, haddr, hgo, hlength⟩⟩
  · exact absurd hok hnot
  · exact absurd ((Machine.Halts.single hr).unique h) (hne region')
  have hrest := h.of_step hgo
  dsimp only at htable hlength
  rw [hparse] at htable
  have happly := attrTable_apply htable devlinkAttrRegionChunkAddr
  rw [haddr] at happly
  cases hlast : lastAttr devlinkAttrRegionChunkAddr c (pos + 4) with
  | none =>
      rw [hlast, Option.none_or] at happly
      rcases htbc with rfl | ⟨-, addr', haddr', hnext⟩
      · cases happly
      · obtain rfl : addr = addr' := Option.some.inj (happly.trans haddr')
        rw [hnext] at hrest
        exact absurd hrest
          (dupLoop_no_addr hfits hput hstop hlast htable haddr' hnext next region')
  | some place =>
      rw [hlast, Option.some_or] at happly
      obtain rfl : addr = place := Option.some.inj happly
      have hattrs := attrs_of_chunk hput
      obtain ⟨front, a, back, hsplit, htype, hback, hlen, hnext, -, hget, -⟩ :=
        addr_at hfits hattrs hlast
      have hin {b : NlAttribute} (hb : b ∈ a :: back) : b ∈ blankChunk e (layout c) := by
        rw [hblank, hsplit]
        exact List.mem_append_right _ hb
      cases back with
      | nil =>
          -- there is no data, so that the address is past the start
          have hknown := (attrTable_isSome_iff devlinkAttrMax c (pos + 4) tbc).mp (htable ▸ rfl)
          have hnodata : devlinkAttrRegionChunkData ∉ layout c := fun hmem => hbad
            ((layoutOk_iff c).mpr ⟨List.mem_map.mp hmem, ⟨front, a, hsplit, htype⟩, hknown⟩)
          have hpast := one_add_payload_pos e mem data
          rw [hget, get64_blankChunk (hin List.mem_cons_self) htype hnodata] at hlength
          have hgrown := dupLoop_length hrest
          dsimp only at hgrown
          omega
      | cons b back =>
          have hb := hin (List.mem_cons_of_mem _ List.mem_cons_self)
          have hempty := (mem_blankChunk hb).2 (hback b List.mem_cons_self)
          have hplace : attrNext e mem addr = pos + 4 + attrsSize (front ++ [a]) := by
            have hsize : attrsSize (front ++ [a]) = attrsSize front + 12 := by
              rw [attrsSize_append, attrsSize_cons, NlAttribute.size, hlen]
              rfl
            rw [hnext, hsize, ← Nat.add_assoc]
          exact absurd hrest (dupLoop_behind_addr (hfits.attr (hblank ▸ hb)) hempty
            (hsplit ▸ hattrs) (hsplit ▸ hstop) hplace haddr next region')

/-- If the loop gets through chunks without contents that cannot all be told
apart, it has written behind the start of the region. -/
theorem dupLoop_blank (halloc : ∀ n, alloc n = true) {cs : List (List NlAttribute)}
    (hfits : ∀ c ∈ cs, ChunkFits e c) (hblank : ∀ c ∈ cs, blankChunk e (layout c) = c)
    (hbad : ∃ c ∈ cs, ¬LayoutOk (layout c)) {pos : Nat}
    (hput : attrsBytes e (cs.map (chunkAttr e)) <+: mem.drop pos) {tbc : AttrTable}
    (htbc : tbc = emptyTable ∨ Behind e mem pos tbc) {region region' : RegionBytes}
    (h : (dupLoop e alloc mem (pos + attrsSize (cs.map (chunkAttr e)))).Halts ⟨pos, tbc, region⟩
      (.returned .ok region')) : 0 < region'.length := by
  induction cs generalizing pos tbc region with
  | nil =>
      obtain ⟨c, hc, -⟩ := hbad
      cases hc
  | cons c cs ih =>
      obtain ⟨hhead, htail⟩ := chunkAttrs_tail hput
      have hstop : pos + attrsSize ((c :: cs).map (chunkAttr e)) =
          pos + (chunkAttr e c).size + attrsSize (cs.map (chunkAttr e)) := by
        rw [List.map_cons, attrsSize_cons, Nat.add_assoc]
      rw [hstop] at h
      have hfit := hfits c List.mem_cons_self
      by_cases hgood : LayoutOk (layout c)
      · obtain ⟨k, tbc', -, hbehind, hstep⟩ :=
          dupLoop_good halloc hfit hgood hhead (Nat.le_add_right _ _) tbc region
        refine ih (fun c' hc' => hfits c' (List.mem_cons_of_mem _ hc'))
          (fun c' hc' => hblank c' (List.mem_cons_of_mem _ hc')) ?_ htail (Or.inr hbehind)
          (h.of_step hstep)
        obtain ⟨c', hc', hbad⟩ := hbad
        rcases List.mem_cons.mp hc' with rfl | hc'
        · exact absurd hgood hbad
        · exact ⟨c', hc', hbad⟩
      · exact dupLoop_blank_bad hfit (hblank c List.mem_cons_self) hgood hhead
          (Nat.le_add_right _ _) htbc h

/-! ## Replies -/

/-- Replies never shrink the region. -/
theorem dupReplies_length {replies : List RegionReply} (hvalid : ∀ r ∈ replies, r.Valid e)
    {region region' : RegionBytes}
    (h : DupReplies e alloc (replies.map (·.bytes e)) region region') :
    region.length ≤ region'.length := by
  induction replies generalizing region with
  | nil =>
      cases h
      exact Nat.le_refl _
  | cons r replies ih =>
      cases h with
      | cons hhead hrest =>
      have hr := hvalid r List.mem_cons_self
      refine le_trans ?_ (ih (fun r' hr' => hvalid r' (List.mem_cons_of_mem _ hr')) hrest)
      by_cases hknown : ∀ a ∈ r.before ++ r.after, a.type ≤ devlinkAttrMax
      · exact dupLoop_length ((devlinkRegionDupCb_valid hr hknown _ _).mp hhead)
      · cases (devlinkRegionDupCb_unknown hr hknown _ _).mp hhead

/-- If the callback gets through replies without contents that it cannot tell
apart, it has written behind the start of the region. -/
theorem dupReplies_blank (halloc : ∀ n, alloc n = true) {replies : List RegionReply}
    (hvalid : ∀ r ∈ replies, r.Valid e)
    (hblank : ∀ r ∈ replies, ∀ c ∈ r.chunks, blankChunk e (layout c) = c)
    (hbad : ∃ r ∈ replies, ¬ReplyOk r) {region region' : RegionBytes}
    (h : DupReplies e alloc (replies.map (·.bytes e)) region region') : 0 < region'.length := by
  induction replies generalizing region with
  | nil =>
      obtain ⟨r, hr, -⟩ := hbad
      cases hr
  | cons r replies ih =>
      cases h with
      | cons hhead hrest =>
      have hr := hvalid r List.mem_cons_self
      have hvalid' : ∀ r' ∈ replies, r'.Valid e :=
        fun r' hr' => hvalid r' (List.mem_cons_of_mem _ hr')
      by_cases hknown : ∀ a ∈ r.before ++ r.after, a.type ≤ devlinkAttrMax
      · by_cases hgood : ∀ c ∈ r.chunks, LayoutOk (layout c)
        · refine ih hvalid' (fun r' hr' => hblank r' (List.mem_cons_of_mem _ hr')) ?_ hrest
          obtain ⟨r', hr', hnot⟩ := hbad
          rcases List.mem_cons.mp hr' with rfl | hr'
          · exact absurd ⟨hknown, hgood⟩ hnot
          · exact ⟨r', hr', hnot⟩
        · push Not at hgood
          have hloop := (devlinkRegionDupCb_valid hr hknown _ _).mp hhead
          exact lt_of_lt_of_le (dupLoop_blank halloc hr.chunkFits (hblank r List.mem_cons_self)
            hgood (r.chunks_at e) (Or.inl rfl) hloop) (dupReplies_length hvalid' hrest)
      · cases (devlinkRegionDupCb_unknown hr hknown _ _).mp hhead

/-- Whether a reply is taken is decided by its layout. -/
theorem SameLayout.replyOk_iff {r r' : RegionReply} (h : SameLayout r r') :
    ReplyOk r' ↔ ReplyOk r := by
  have hchunks : (∀ c ∈ r'.chunks, LayoutOk (layout c)) ↔ ∀ c ∈ r.chunks, LayoutOk (layout c) := by
    have hmap := List.forall_mem_map (f := layout) (P := LayoutOk) (l := r'.chunks)
    rw [← hmap, h.chunks, List.forall_mem_map]
  constructor
  · rintro ⟨hknown, hgood⟩
    exact ⟨h.before ▸ h.after ▸ hknown, hchunks.mp hgood⟩
  · rintro ⟨hknown, hgood⟩
    exact ⟨h.before.symm ▸ h.after.symm ▸ hknown, hchunks.mpr hgood⟩

/-- Chunks that all end at the start of the region make an empty one. -/
theorem foldl_stop_eq_zero {chunks : List RegionChunk} (h : ∀ k ∈ chunks, k.stop = 0) :
    chunks.foldl (fun n c => max n c.stop) 0 = 0 := by
  induction chunks with
  | nil => rfl
  | cons k chunks ih =>
      rw [List.foldl_cons, h k List.mem_cons_self]
      exact ih fun k' hk' => h k' (List.mem_cons_of_mem _ hk')

/-- Whatever the contents of replies are, they are put together, exactly when
the client has room for their attributes and each chunk has data and an address,
the address last. -/
theorem devlinkRegionDup_iff (halloc : ∀ n, alloc n = true) {replies : List RegionReply}
    (hvalid : ∀ r ∈ replies, r.Valid e) :
    (∀ replies', List.Forall₂ SameLayout replies replies' → (∀ r ∈ replies', r.Valid e) →
      PutTogether e alloc replies') ↔ ∀ r ∈ replies, ReplyOk r := by
  constructor
  · intro hall
    by_contra hbad
    push Not at hbad
    have hvalid' : ∀ r ∈ replies.map (·.blank e), r.Valid e := by
      rw [List.forall_mem_map]
      exact fun r hr => (hvalid r hr).blank
    have hsame : List.Forall₂ SameLayout replies (replies.map (·.blank e)) := by
      rw [List.forall₂_map_right_iff, List.forall₂_same]
      exact fun r _ => SameLayout.blank e r
    obtain ⟨region, hrun, hput⟩ := hall _ hsame hvalid'
    have hblank : ∀ r ∈ replies.map (·.blank e), ∀ c ∈ r.chunks, blankChunk e (layout c) = c := by
      rw [List.forall_mem_map]
      intro r _ c hc
      obtain ⟨c₀, -, rfl⟩ := List.mem_map.mp hc
      rw [layout_blankChunk]
    have hpos := dupReplies_blank halloc hvalid' hblank ?_ hrun
    · have hzero := hput.size
      rw [foldl_stop_eq_zero] at hzero
      · omega
      · intro k hk
        obtain ⟨r, hr, hk⟩ := List.mem_flatMap.mp hk
        obtain ⟨c, hc, hk⟩ := List.mem_filterMap.mp hk
        rw [← hblank r hr c hc] at hk
        exact chunkOf_blankChunk hk
    · obtain ⟨r, hr, hnot⟩ := hbad
      exact ⟨r.blank e, List.mem_map_of_mem hr, mt (SameLayout.blank e r).replyOk_iff.mp hnot⟩
  · intro hgood replies' hsame hvalid'
    have hgood' : ∀ r ∈ replies', ReplyOk r := by
      intro r' hr'
      obtain ⟨i, hi, rfl⟩ := List.getElem_of_mem hr'
      have hlt : i < replies.length := hsame.length_eq ▸ hi
      exact (hsame.get hlt hi).replyOk_iff.mpr (hgood _ (List.getElem_mem hlt))
    have hput := dupReplies_reassembled halloc hvalid' hgood' Reassembled.nil
    rwa [List.nil_append] at hput

/-- A reply with a chunk that has both attributes. -/
def wholeReply : RegionReply :=
  ⟨[⟨devlinkAttrBusName, [0]⟩, ⟨devlinkAttrDevName, [0]⟩],
    [[⟨devlinkAttrRegionChunkData, [7]⟩, ⟨devlinkAttrRegionChunkAddr, Endian.little.put64 2⟩]], []⟩

/-- The same with a chunk before it that has no data. -/
def partialReply : RegionReply :=
  { wholeReply with
    chunks := [⟨devlinkAttrRegionChunkAddr, Endian.little.put64 0⟩] :: wholeReply.chunks }

/-- The reply with a whole chunk is well formed. -/
theorem wholeReply_valid : wholeReply.Valid .little := by
  refine ⟨by decide, by decide, ?_, ⟨by decide, by decide⟩, by decide, by decide, ?_⟩
  · simp only [wholeReply, List.append_nil, List.forall_mem_cons, List.not_mem_nil, false_implies,
      implies_true, and_true]
    exact ⟨⟨⟨by decide, by decide⟩, by decide⟩, ⟨by decide, by decide⟩, by decide⟩
  · simp only [wholeReply, List.forall_mem_cons, List.not_mem_nil, false_implies, implies_true,
      and_true]
    rintro k hk
    cases hk
    decide

/-- So is the one with a chunk that has no data. -/
theorem partialReply_valid : partialReply.Valid .little := by
  refine ⟨by decide, by decide, wholeReply_valid.other, ⟨by decide, by decide⟩, by decide,
    by decide, ?_⟩
  intro c hc k hk
  rcases List.mem_cons.mp hc with rfl | hc
  · cases hk
  · exact wholeReply_valid.bounded c hc k hk

/-- A reply with three chunks, of which the first is in the place of the chunk of the other
reply. -/
def laterReply : RegionReply where
  before := wholeReply.before
  chunks := [
    [⟨devlinkAttrRegionChunkData, [1, 2, 3]⟩, ⟨devlinkAttrRegionChunkAddr, Endian.little.put64 1⟩],
    [⟨devlinkAttrRegionChunkData, [9]⟩, ⟨devlinkAttrRegionChunkAddr, Endian.little.put64 0⟩],
    [⟨devlinkAttrRegionChunkData, [5, 6]⟩, ⟨devlinkAttrRegionChunkAddr, Endian.little.put64 3⟩]]
  after := []

/-- And so is the one with three chunks. -/
theorem laterReply_valid : laterReply.Valid .little := by
  refine ⟨by decide, by decide, wholeReply_valid.other, ⟨by decide, by decide⟩, by decide,
    by decide, ?_⟩
  simp only [laterReply, List.forall_mem_cons, List.not_mem_nil, false_implies, implies_true,
    and_true]
  refine ⟨fun k hk => ?_, fun k hk => ?_, fun k hk => ?_⟩ <;>
    · cases hk
      decide

/-- Two replies whose chunks overlap: each byte is that of the last chunk that has it. -/
theorem devlinkRegionDup_iff_overlap : ∃ region,
    DupReplies .little (fun _ => true) ([wholeReply, laterReply].map (·.bytes .little)) [] region ∧
      region.length = 5 ∧
      ∀ p ∈ [(0, 9), (1, 1), (2, 2), (3, 5), (4, 6)], region[p.1]? = some (some p.2) := by
  have hvalid : ∀ r ∈ [wholeReply, laterReply], r.Valid .little := by
    simpa using ⟨wholeReply_valid, laterReply_valid⟩
  have hlayout : ∀ r ∈ [wholeReply, laterReply], ∀ c ∈ r.chunks,
      layout c = [devlinkAttrRegionChunkData, devlinkAttrRegionChunkAddr] := by decide
  have hok : ∀ r ∈ [wholeReply, laterReply], ReplyOk r := fun r hr => {
    known := by
      revert r
      decide
    chunks := fun c hc => by
      rw [hlayout r hr c hc]
      refine ⟨by decide, by decide, fun type htype => ?_⟩
      rcases List.mem_pair.mp htype with rfl | rfl <;> decide }
  have hsame : List.Forall₂ SameLayout [wholeReply, laterReply] [wholeReply, laterReply] :=
    List.forall₂_same.mpr fun r _ => ⟨rfl, rfl, rfl⟩
  obtain ⟨region, hrun, hput⟩ := (devlinkRegionDup_iff (fun _ => rfl) hvalid).mpr hok _ hsame hvalid
  have hchunks : allChunks .little [wholeReply, laterReply] =
      [⟨2, [7]⟩, ⟨1, [1, 2, 3]⟩, ⟨0, [9]⟩, ⟨3, [5, 6]⟩] := rfl
  rw [hchunks] at hput
  have hbytes : ∀ p ∈ [(0, 9), (1, 1), (2, 2), (3, 5), (4, 6)],
      lastByte [⟨2, [7]⟩, ⟨1, [1, 2, 3]⟩, ⟨0, [9]⟩, ⟨3, [5, 6]⟩] p.1 = some p.2 := by decide
  exact ⟨region, hrun, hput.size, fun p hp => hput.bytes p.1 p.2 (hbytes p hp)⟩

/-- A chunk without data ends the program. -/
theorem devlinkRegionDup_partial :
    partialReply.Valid .little ∧ ¬PutTogether .little (fun _ => true) [partialReply] := by
  refine ⟨partialReply_valid, ?_⟩
  rintro ⟨region, hrun, -⟩
  cases hrun with
  | cons hhead _ =>
  have hloop := (devlinkRegionDupCb_valid partialReply_valid (by decide) _ _).mp hhead
  have hat := (chunkAttrs_tail (partialReply.chunks_at .little)).1
  have hfits := partialReply_valid.chunkFits _ List.mem_cons_self
  have hstop : attrsSize partialReply.before + 4 +
      (chunkAttr .little [⟨devlinkAttrRegionChunkAddr, Endian.little.put64 0⟩]).size ≤
        attrsSize partialReply.before + 4 +
          attrsSize (partialReply.chunks.map (chunkAttr .little)) := by decide
  cases hloop.unique (Machine.Halts.single (dupLoop_chunk hfits hat hstop emptyTable []))

end MdioTools.Mvls
