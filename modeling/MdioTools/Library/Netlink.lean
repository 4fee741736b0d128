import MdioTools.Library.Bytes

/-!
# Reading netlink buffers

A buffer holds messages one after another, each with its length in its header
and padded to a multiple of four.  The payload of a message holds attributes
laid out in the same way.  Reading follows the lengths.  A buffer has to be
used up by its messages; reading attributes stops at the first that does not
fit, as libmnl does.

Main results:

- Theorems {lit}`nlMsgs_header` and {lit}`nlAttrs_header`: a record written in
  front of others is read back in front of them.
- Theorem {lit}`nlMsgs_size`: the messages of a buffer fit into it.
- Theorem {lit}`nlAttrs_size`: so do the attributes, and each has at most
  65531 bytes.
-/

namespace MdioTools.Library

/-! ## Messages -/

/-- A netlink message: its type and what follows its header. -/
structure NlMsg where
  type : BitVec 16
  payload : List Byte
deriving DecidableEq

/-- The first message type that is not for control. -/
def nlmsgMinType : BitVec 16 := 16

/-- The bytes of a message header. -/
def nlHeader (e : Endian) (len : BitVec 32) (type flags : BitVec 16) (seq portid : BitVec 32) :
    List Byte :=
  e.put32 len ++ e.put16 type ++ e.put16 flags ++ e.put32 seq ++ e.put32 portid

/-- The messages of a buffer, by their length fields. -/
def nlMsgs (e : Endian) (buf : List Byte) : Option (List NlMsg) :=
  if buf = [] then some []
  else if _h : 16 ≤ (e.get32 buf).toNat ∧ (e.get32 buf).toNat ≤ buf.length then
    (nlMsgs e (buf.drop (align4 (e.get32 buf).toNat))).map
      (⟨e.get16 (buf.drop 4), (buf.take (e.get32 buf).toNat).drop 16⟩ :: ·)
  else none
termination_by buf.length
decreasing_by
  have := le_align4 (e.get32 buf).toNat
  simp only [List.length_drop]
  omega

@[simp]
theorem nlHeader_length (e : Endian) (len : BitVec 32) (type flags : BitVec 16)
    (seq portid : BitVec 32) : (nlHeader e len type flags seq portid).length = 16 := by
  simp [nlHeader]

@[simp]
theorem get32_nlHeader (e : Endian) (len : BitVec 32) (type flags : BitVec 16)
    (seq portid : BitVec 32) (rest : List Byte) :
    e.get32 (nlHeader e len type flags seq portid ++ rest) = len := by
  simp only [nlHeader, List.append_assoc, Endian.get32_put32]

@[simp]
theorem get16_drop_nlHeader (e : Endian) (len : BitVec 32) (type flags : BitVec 16)
    (seq portid : BitVec 32) (rest : List Byte) :
    e.get16 ((nlHeader e len type flags seq portid ++ rest).drop 4) = type := by
  have hlen : (e.put32 len).length = 4 := e.put32_length len
  simp only [nlHeader, List.append_assoc]
  rw [← hlen, List.drop_left, Endian.get16_put16]

@[simp]
theorem nlMsgs_nil (e : Endian) : nlMsgs e [] = some [] := by
  rw [nlMsgs]
  simp

/-- A message written in front of others is read back in front of them. -/
theorem nlMsgs_header (e : Endian) {len : BitVec 32} (type flags : BitVec 16)
    (seq portid : BitVec 32) {body : List Byte} (rest : List Byte)
    (hlen : len.toNat = 16 + body.length) (hpad : body.length % 4 = 0) :
    nlMsgs e (nlHeader e len type flags seq portid ++ body ++ rest) =
      (nlMsgs e rest).map (⟨type, body⟩ :: ·) := by
  have hhdr := nlHeader_length e len type flags seq portid
  have hsize : (nlHeader e len type flags seq portid ++ body).length = len.toNat := by
    rw [List.length_append, hhdr, hlen]
  have halign : align4 len.toNat = len.toNat := align4_of_dvd (by omega)
  rw [nlMsgs, List.append_assoc, get32_nlHeader, get16_drop_nlHeader, ← List.append_assoc, halign]
  have hne : nlHeader e len type flags seq portid ++ body ++ rest ≠ [] := by
    intro h
    have := congrArg List.length h
    simp at this
  have hfit : 16 ≤ len.toNat ∧
      len.toNat ≤ (nlHeader e len type flags seq portid ++ body ++ rest).length := by
    rw [List.length_append, hsize]
    omega
  rw [if_neg hne, dif_pos hfit, ← hsize, List.drop_left, List.take_left, ← hhdr, List.drop_left]

/-- A buffer that starts with a header has a message of the header's type. -/
theorem nlMsgs_head {e : Endian} {len : BitVec 32} {type flags : BitVec 16}
    {seq portid : BitVec 32} {rest : List Byte} {msgs : List NlMsg}
    (h : nlMsgs e (nlHeader e len type flags seq portid ++ rest) = some msgs) :
    ∃ msg ∈ msgs, msg.type = type := by
  rw [nlMsgs] at h
  split at h
  · rename_i hnil
    have := congrArg List.length hnil
    simp at this
  · split at h
    · simp only [get32_nlHeader, get16_drop_nlHeader, Option.map_eq_some_iff] at h
      obtain ⟨tail, -, rfl⟩ := h
      exact ⟨_, List.mem_cons_self, rfl⟩
    · cases h

/-- The size of a message without padding. -/
def NlMsg.size (msg : NlMsg) : Nat :=
  16 + msg.payload.length

/-- The messages of a buffer fit into it. -/
theorem nlMsgs_size {e : Endian} {buf : List Byte} {msgs : List NlMsg}
    (h : nlMsgs e buf = some msgs) : (msgs.map NlMsg.size).sum ≤ buf.length := by
  fun_induction nlMsgs e buf generalizing msgs with
  | case1 =>
      cases h
      simp
  | case2 buf hne hfit ih =>
      simp only [Option.map_eq_some_iff] at h
      obtain ⟨tail, htail, rfl⟩ := h
      have hrest := ih htail
      have halign := le_align4 (e.get32 buf).toNat
      simp only [List.map_cons, List.sum_cons, NlMsg.size, List.length_drop,
        List.length_take] at hrest ⊢
      by_cases hle : align4 (e.get32 buf).toNat ≤ buf.length
      · omega
      · rw [List.drop_of_length_le (by omega), nlMsgs_nil] at htail
        cases htail
        simp
        omega
  | case3 => cases h

/-! ## Attributes -/

/-- A netlink attribute: its type and what follows its header. -/
structure NlAttribute where
  type : BitVec 16
  payload : List Byte
deriving DecidableEq

/-- `NLA_TYPE_MASK`: the flags of a nested attribute are not part of its
type. -/
def nlaTypeMask : BitVec 16 := 0x3fff

/-- The attributes in memory, up to the first that does not fit. -/
def nlAttrs (e : Endian) (mem : List Byte) : List NlAttribute :=
  if _h : 4 ≤ (e.get16 mem).toNat ∧ (e.get16 mem).toNat ≤ mem.length then
    ⟨e.get16 (mem.drop 2) &&& nlaTypeMask, (mem.take (e.get16 mem).toNat).drop 4⟩ ::
      nlAttrs e (mem.drop (align4 (e.get16 mem).toNat))
  else []
termination_by mem.length
decreasing_by
  have := le_align4 (e.get16 mem).toNat
  simp only [List.length_drop]
  omega

/-- The last attribute of a type. -/
def nlaFind (attrs : List NlAttribute) (type : BitVec 16) : Option (List Byte) :=
  (attrs.reverse.find? (·.type = type)).map NlAttribute.payload

@[simp]
theorem nlAttrs_nil (e : Endian) : nlAttrs e [] = [] := by
  rw [nlAttrs]
  simp [Endian.get16]

/-- An attribute written in front of others is read back in front of them. -/
theorem nlAttrs_header (e : Endian) {len : BitVec 16} (type : BitVec 16) {body : List Byte}
    (rest : List Byte) (hlen : len.toNat = 4 + body.length) (hpad : body.length % 4 = 0) :
    nlAttrs e (e.put16 len ++ e.put16 type ++ body ++ rest) =
      ⟨type &&& nlaTypeMask, body⟩ :: nlAttrs e rest := by
  have hhdr : (e.put16 len ++ e.put16 type).length = 4 := by simp
  have hsize : (e.put16 len ++ e.put16 type ++ body).length = len.toNat := by
    rw [List.length_append, hhdr, hlen]
  have halign : align4 len.toNat = len.toNat := align4_of_dvd (by omega)
  have hget : e.get16 (e.put16 len ++ e.put16 type ++ body ++ rest) = len := by
    simp only [List.append_assoc, Endian.get16_put16]
  have htype : e.get16 ((e.put16 len ++ e.put16 type ++ body ++ rest).drop 2) = type := by
    have htwo : (e.put16 len).length = 2 := e.put16_length len
    simp only [List.append_assoc]
    rw [← htwo, List.drop_left, Endian.get16_put16]
  have hfit : 4 ≤ len.toNat ∧
      len.toNat ≤ (e.put16 len ++ e.put16 type ++ body ++ rest).length := by
    rw [List.length_append, hsize]
    omega
  rw [nlAttrs, hget, htype, halign, dif_pos hfit, ← hsize, List.drop_left, List.take_left,
    ← hhdr, List.drop_left]

/-- An attribute and its header fit into the memory it is read from, and its
length has 16 bits. -/
theorem nlAttrs_size {e : Endian} {mem : List Byte} {attr : NlAttribute}
    (h : attr ∈ nlAttrs e mem) :
    attr.payload.length + 4 ≤ mem.length ∧ attr.payload.length ≤ 65531 := by
  fun_induction nlAttrs e mem with
  | case1 mem hfit ih =>
      rcases List.mem_cons.mp h with rfl | hmem
      · have hlt := (e.get16 mem).isLt
        simp only [List.length_drop, List.length_take]
        omega
      · have hrest := ih hmem
        simp only [List.length_drop] at hrest
        omega
  | case2 => cases h

/-- What is found is the payload of an attribute of the type. -/
theorem nlaFind_mem {attrs : List NlAttribute} {type : BitVec 16} {payload : List Byte}
    (h : nlaFind attrs type = some payload) :
    ∃ attr ∈ attrs, attr.type = type ∧ attr.payload = payload := by
  simp only [nlaFind, Option.map_eq_some_iff] at h
  obtain ⟨attr, hattr, rfl⟩ := h
  have htype := List.find?_some hattr
  rw [decide_eq_true_eq] at htype
  exact ⟨attr, List.mem_reverse.mp (List.mem_of_find?_eq_some hattr), htype, rfl⟩

/-! ## Arrays of words -/

/-- The 32-bit words in memory; a rest of less than four bytes is left out. -/
def words32 (e : Endian) : List Byte → List (BitVec 32)
  | a :: b :: c :: d :: rest => e.get32 [a, b, c, d] :: words32 e rest
  | _ => []

theorem words32_put32 (e : Endian) (w : BitVec 32) (rest : List Byte) :
    words32 e (e.put32 w ++ rest) = w :: words32 e rest := by
  have hget := e.get32_put32 w []
  cases e <;>
    simpa [Endian.put32, Endian.put16, words32] using hget

/-- Words that are written one after another are read back. -/
theorem words32_flatMap (e : Endian) (ws : List (BitVec 32)) :
    words32 e (ws.flatMap e.put32) = ws := by
  induction ws with
  | nil => rfl
  | cons w ws ih => rw [List.flatMap_cons, words32_put32, ih]

@[simp]
theorem flatMap_put32_length (e : Endian) (ws : List (BitVec 32)) :
    (ws.flatMap e.put32).length = 4 * ws.length := by
  induction ws with
  | nil => rfl
  | cons w ws ih =>
      rw [List.flatMap_cons, List.length_append, ih, Endian.put32_length, List.length_cons]
      omega

theorem words32_length_le (e : Endian) (mem : List Byte) :
    4 * (words32 e mem).length ≤ mem.length := by
  fun_induction words32 e mem with
  | case1 a b c d rest ih =>
      simp only [List.length_cons]
      omega
  | case2 => simp

end MdioTools.Library
