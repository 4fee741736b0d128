import MdioTools.Client.Exec
import MdioTools.Kernel.Reply
import MdioTools.Library.Netlink

/-!
# The request of the client

{lit}`mdio_xfer_timeout` writes a request into a static buffer: the netlink
header, the generic header, and the attributes for the bus, the program and the
time limit.  libmnl appends an attribute without a look at the size of the
buffer, so what keeps the request inside it is the length check in front, which
counts the program alone.

Main results:

- Definition {lit}`mdioXferRequest`: the length check and the request.
- Theorem {lit}`requestBytes_length`: the length of a request.
- Theorem {lit}`mdioXferRequest_fits_iff`: the requests that stay inside the
  buffer or are rejected.
-/

namespace MdioTools.Client

open Kernel Library

/-! ## Attributes -/

/-- `mnl_attr_put`: the header, the data, and the padding with zeros. -/
def mnlAttrPut (e : Endian) (type : BitVec 16) (data : List Byte) : List Byte :=
  e.put16 (BitVec.ofNat 16 (nlaHdrlen + data.length)) ++ e.put16 type ++ data ++
    List.replicate (align4 data.length - data.length) 0

/-- `mnl_attr_put_strz`: a string with its terminator. -/
def mnlAttrPutStrz (e : Endian) (type : BitVec 16) (str : List Byte) : List Byte :=
  mnlAttrPut e type (str ++ [0])

/-- `mnl_attr_put_u16`. -/
def mnlAttrPutU16 (e : Endian) (type : BitVec 16) (v : BitVec 16) : List Byte :=
  mnlAttrPut e type (e.put16 v)

@[simp]
theorem mnlAttrPut_length (e : Endian) (type : BitVec 16) (data : List Byte) :
    (mnlAttrPut e type data).length = 4 + align4 data.length := by
  have hle := le_align4 data.length
  simp only [mnlAttrPut, List.length_append, Endian.put16_length, List.length_replicate]
  omega

/-! ## Instructions -/

/-- The bytes of `struct mdio_nl_insn`, whose bit-fields fill a 64-bit integer
from the low end on a little-endian host and from the high end on a big-endian
one. -/
def insnBytes (e : Endian) (i : MdioNlInsn) : List Byte :=
  match e with
  | .little =>
      let word : BitVec 64 := i.arg2 ++ i.arg1 ++ i.arg0 ++ 0#2 ++ i.op
      e.put32 (word.setWidth 32) ++ e.put32 ((word >>> 32).setWidth 32)
  | .big =>
      let word : BitVec 64 := i.op ++ 0#2 ++ i.arg0 ++ i.arg1 ++ i.arg2
      e.put32 ((word >>> 32).setWidth 32) ++ e.put32 (word.setWidth 32)

@[simp]
theorem insnBytes_length (e : Endian) (i : MdioNlInsn) : (insnBytes e i).length = sizeofInsn := by
  cases e <;> simp [insnBytes, sizeofInsn]

@[simp]
theorem flatMap_insnBytes_length (e : Endian) (prog : MdioProg) :
    (prog.flatMap (insnBytes e)).length = sizeofInsn * prog.length := by
  induction prog with
  | nil => rfl
  | cons i rest ih =>
      rw [List.flatMap_cons, List.length_append, insnBytes_length, ih, List.length_cons,
        Nat.mul_succ, Nat.add_comm]

/-! ## The request -/

/-- The size of the static buffer `buf`. -/
def bufLen : Nat := 0x1000

/-- `NLM_F_REQUEST | NLM_F_ACK`. -/
def requestFlags : BitVec 16 := 5

/-- The request that `mdio_xfer_timeout` writes, up to the last byte written. -/
def requestBytes (e : Endian) (family : BitVec 16) (seq : BitVec 32) (bus : List Byte)
    (prog : MdioProg) (timeout : BitVec 16) : List Byte :=
  let attrs := mnlAttrPutStrz e mdioNlaBusId bus ++
    mnlAttrPut e mdioNlaProg (prog.flatMap (insnBytes e)) ++
    mnlAttrPutU16 e mdioNlaTimeout timeout
  nlHeader e (BitVec.ofNat 32 (nlmsgHdrlen + genlHdrlen + attrs.length)) family requestFlags seq 0 ++
    [mdioGenlXfer, mdioGenlVersion, 0, 0] ++ attrs

/-- `mdio_xfer_timeout` up to the query: the length check, and the request. -/
def mdioXferRequest (e : Endian) (family : BitVec 16) (seq : BitVec 32) (bus : List Byte)
    (prog : MdioProg) (timeout : BitVec 16) : Except Int (List Byte) :=
  if bufLen < prog.length * sizeofInsn then .error (-enomem)
  else .ok (requestBytes e family seq bus prog timeout)

variable (e : Endian) (family : BitVec 16) (seq : BitVec 32) (bus : List Byte) (prog : MdioProg)
  (timeout : BitVec 16)

/-- A request has headers of 36 bytes in all, a padded bus name, and the
program. -/
theorem requestBytes_length :
    (requestBytes e family seq bus prog timeout).length =
      36 + align4 (bus.length + 1) + 8 * prog.length := by
  have hprog : align4 (sizeofInsn * prog.length) = 8 * prog.length := by
    rw [align4_of_dvd (by unfold sizeofInsn; omega), sizeofInsn]
  have htimeout : align4 2 = 4 := by decide
  simp only [requestBytes, mnlAttrPutStrz, mnlAttrPutU16, List.length_append, nlHeader_length,
    mnlAttrPut_length, flatMap_insnBytes_length, hprog, Endian.put16_length, htimeout,
    List.length_cons, List.length_nil, Nat.zero_add]
  omega

/-- What is written fits the buffer, and a request that does not fit is rejected
before anything is written. -/
structure RequestFits : Prop where
  fits : ∀ msg, mdioXferRequest e family seq bus prog timeout = .ok msg → msg.length ≤ bufLen
  rejected : bufLen < (requestBytes e family seq bus prog timeout).length →
    ∃ err, mdioXferRequest e family seq bus prog timeout = .error err

/-- A request stays inside the buffer or is rejected exactly when the program is
too long for the check or leaves room for the headers and the bus name. -/
theorem mdioXferRequest_fits_iff :
    RequestFits e family seq bus prog timeout ↔
      bufLen < 8 * prog.length ∨ 36 + align4 (bus.length + 1) + 8 * prog.length ≤ bufLen := by
  have hlength := requestBytes_length e family seq bus prog timeout
  by_cases hlong : bufLen < prog.length * sizeofInsn
  · have hreject : mdioXferRequest e family seq bus prog timeout = .error (-enomem) := if_pos hlong
    unfold sizeofInsn at hlong
    refine iff_of_true ⟨fun msg h => ?_, fun _ => ⟨_, hreject⟩⟩ (Or.inl (by omega))
    rw [hreject] at h
    cases h
  · have hsend : mdioXferRequest e family seq bus prog timeout =
        .ok (requestBytes e family seq bus prog timeout) := if_neg hlong
    unfold sizeofInsn at hlong
    constructor
    · rintro ⟨hfits, -⟩
      have hle := hfits _ hsend
      rw [hlength] at hle
      exact Or.inr hle
    · rintro (hover | hle)
      · omega
      · rw [← hlength] at hle
        refine ⟨fun msg h => ?_, fun hover => absurd hle (Nat.not_le.mpr hover)⟩
        rw [hsend] at h
        cases h
        exact hle

/-! ## A dump that does not fit -/

/-- The program of a dump of the registers 0 to 253 of device 1 on port 0. -/
def dump254 : MdioProg :=
  ((List.range 254).map fun i => 0 + BitVec.ofNat 32 i).foldl (dumpOne (phyDriver 0x8001)) []

/-- The driver for PHYs takes two instructions for a register of a dump. -/
theorem foldl_dumpOne_phy_length (id : BitVec 16) (regs : List (BitVec 32)) (prog : MdioProg) :
    (regs.foldl (dumpOne (phyDriver id)) prog).length = prog.length + 2 * regs.length := by
  induction regs generalizing prog with
  | nil => simp
  | cons reg rest ih =>
      rw [List.foldl_cons, ih]
      simp only [dumpOne, phyDriver, phyRead, mdioProgPush, List.length_append, List.length_cons,
        List.length_nil]
      omega

/-- The dump `mdio fixed-0 mmd 0:1 dump 0-253` passes the length check and is
written 12 bytes past the end of the buffer. -/
theorem mdioXferRequest_overflows_dump :
    Command.Sends (Object.mmd.exec ["0:1".toList, "dump".toList, "0-253".toList]) dump254 ∧
      ¬RequestFits .little 24 1 [0x66, 0x69, 0x78, 0x65, 0x64, 0x2d, 0x30] dump254 longTimeout := by
  have hlength : dump254.length = 508 := by
    rw [dump254, foldl_dumpOne_phy_length]
    simp
  refine ⟨Command.Sends.xfer _ _ _, fun hfits => ?_⟩
  have hsend : mdioXferRequest .little 24 1 [0x66, 0x69, 0x78, 0x65, 0x64, 0x2d, 0x30] dump254
      longTimeout = .ok (requestBytes .little 24 1 [0x66, 0x69, 0x78, 0x65, 0x64, 0x2d, 0x30]
        dump254 longTimeout) := by
    refine if_neg ?_
    rw [hlength]
    decide
  have hle := hfits.fits _ hsend
  rw [requestBytes_length, hlength] at hle
  exact absurd hle (by decide)

end MdioTools.Client
