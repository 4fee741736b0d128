import Mathlib.Data.Fin.VecNotation
import Mathlib.Data.Fintype.Pi
import MdioTools.Library.CString

/-!
# Table entries of a LinkStreet switch

A region snapshot of the ATU, VTU or STU is an array of entries of raw register
words.  The functions of a chip family take them apart; an entry that is not in
use is rejected, and ends the table.

Main results:

- Definitions {lit}`devVtuParse`, {lit}`devStuParse` and {lit}`devAtuParse`: the
  parsers that the families share.
- Definition {lit}`chips`: the supported chips with their families.
-/

namespace MdioTools.Mvls

open Library

/-! ## Bit fields -/

/-- `bits(_reg, _bit, _n)`. -/
def bits (reg : BitVec 16) (pos n : Nat) : Nat :=
  (reg.toNat >>> pos) &&& ((1 <<< n) - 1)

/-- `bit(_reg, _bit)`. -/
def bit (reg : BitVec 16) (pos : Nat) : Bool :=
  bits reg pos 1 ≠ 0

/-- A field as quotient and remainder. -/
theorem bits_eq (reg : BitVec 16) (pos n : Nat) : bits reg pos n = reg.toNat / 2 ^ pos % 2 ^ n := by
  rw [bits, Nat.one_shiftLeft, Nat.and_two_pow_sub_one_eq_mod, Nat.shiftRight_eq_div_pow]

theorem bits_lt (reg : BitVec 16) (pos n : Nat) : bits reg pos n < 2 ^ n := by
  rw [bits_eq]
  exact Nat.mod_lt _ (Nat.two_pow_pos n)

/-- A single bit is the bit of the number. -/
theorem bit_eq (reg : BitVec 16) (pos : Nat) : bit reg pos = reg.toNat.testBit pos := by
  rw [bit, bits_eq, Nat.testBit_eq_decide_div_mod_eq, pow_one]
  rcases Nat.mod_two_eq_zero_or_one (reg.toNat / 2 ^ pos) with h | h <;> simp [h]

/-! ## Entries -/

/-- `MAX_PORTS`. -/
abbrev maxPorts : Nat := 11

/-- `enum vtu_member`. -/
inductive VtuMember
  | unmodified | untagged | tagged | notMember
deriving DecidableEq, Repr

/-- The member with a two-bit code. -/
def VtuMember.ofCode : Nat → VtuMember
  | 0 => .unmodified
  | 1 => .untagged
  | 2 => .tagged
  | _ => .notMember

/-- `enum stu_state`. -/
inductive StuState
  | disabled | blocking | learning | forwarding
deriving DecidableEq, Repr

/-- The state with a two-bit code. -/
def StuState.ofCode : Nat → StuState
  | 0 => .disabled
  | 1 => .blocking
  | 2 => .learning
  | _ => .forwarding

/-- The code of a state, by which it is looked up in tables. -/
def StuState.code : StuState → Nat
  | .disabled => 0
  | .blocking => 1
  | .learning => 2
  | .forwarding => 3

/-- `struct prio_override`. -/
structure PrioOverride where
  set : Bool
  pri : Nat
deriving DecidableEq, Repr

/-- `struct vtu_entry`. -/
structure VtuEntry where
  vid : Nat
  fid : Nat
  sid : Nat
  member : Fin maxPorts → VtuMember
  policy : Bool
  qpri : PrioOverride
  fpri : PrioOverride
deriving DecidableEq

/-- `struct stu_entry`. -/
structure StuEntry where
  sid : Nat
  state : Fin maxPorts → StuState
deriving DecidableEq

/-- `struct atu_entry`; the state is a code for either of two enumerations. -/
structure AtuEntry where
  fid : BitVec 16
  addr : Fin 6 → Nat
  qpri : PrioOverride
  fpri : PrioOverride
  lag : Bool
  portvec : BitVec 16
  state : Nat
deriving DecidableEq

/-- A numeral names a byte of an address. -/
instance addrNeZero : NeZero 6 := ⟨by decide⟩

/-! ## Raw entries -/

/-- `struct mv88e6xxx_devlink_atu_entry`. -/
structure MvAtuEntry where
  fid : BitVec 16
  atuOp : BitVec 16
  atuData : BitVec 16
  atu01 : BitVec 16
  atu23 : BitVec 16
  atu45 : BitVec 16
deriving DecidableEq

/-- `struct mv88e6xxx_devlink_vtu_entry`; `op` and `resvd` are not looked at. -/
structure MvVtuEntry where
  fid : BitVec 16
  sid : BitVec 16
  vid : BitVec 16
  data : Fin 3 → BitVec 16
deriving DecidableEq

/-- `struct mv88e6xxx_devlink_stu_entry`; `resvd` is not looked at. -/
structure MvStuEntry where
  sid : BitVec 16
  vid : BitVec 16
  data : Fin 3 → BitVec 16
deriving DecidableEq

/-- The number of bits of a port in the data words, with which every port has
its place in them. -/
structure MemberBits where
  mbits : Nat
  inside : ∀ i : Fin maxPorts, i.val / (16 / mbits) < 3

/-- The two bits at an offset in the field of a port. -/
def MemberBits.code (m : MemberBits) (data : Fin 3 → BitVec 16) (offs : Nat) (i : Fin maxPorts) :
    Nat :=
  bits (data ⟨i.val / (16 / m.mbits), m.inside i⟩) ((i.val * m.mbits + offs) &&& 0xf) 2

/-- The fields of the opal family have four bits, those of the others two. -/
def opalBits : MemberBits := ⟨4, by decide⟩
def peridotBits : MemberBits := ⟨2, by decide⟩

/-! ## Parsing -/

/-- `__dev_vtu_parse`; the priorities are not set. -/
def devVtuParse (m : MemberBits) (k : MvVtuEntry) : Option VtuEntry :=
  if !bit k.vid 12 then none
  else some {
    vid := bits k.vid 0 12
    fid := bits k.fid 0 12
    sid := bits k.sid 0 6
    member := fun i => .ofCode (m.code k.data 0 i)
    policy := bit k.fid 12
    qpri := ⟨false, 0⟩
    fpri := ⟨false, 0⟩ }

/-- `__dev_stu_parse`. -/
def devStuParse (m : MemberBits) (k : MvStuEntry) : Option StuEntry :=
  let offs := if m.mbits = 4 then 2 else 0
  if !bit k.vid 12 then none
  else some {
    sid := bits k.sid 0 6
    state := fun i => .ofCode (m.code k.data offs i) }

/-- `prio_override_state`: `ATU_MC_PCY_PO` to `ATU_MC_PO`, and `ATU_UC_S_PCY_PO`,
`ATU_UC_S_NRL_PO`, `ATU_UC_S_MGMT_PO` and `ATU_UC_S_PO`. -/
def prioOverrideState (mc : Bool) (state : Nat) : Bool :=
  if mc && (state = 0xc || state = 0xd || state = 0xe || state = 0xf) then true
  else state = 0x9 || state = 0xb || state = 0xd || state = 0xf

/-- `__dev_atu_parse`. -/
def devAtuParse (haveFpri : Bool) (k : MvAtuEntry) : Option AtuEntry :=
  if bits k.atuData 0 4 = 0 then none
  else
    let addr : Fin 6 → Nat :=
      ![bits k.atu01 8 8, bits k.atu01 0 8, bits k.atu23 8 8, bits k.atu23 0 8,
        bits k.atu45 8 8, bits k.atu45 0 8]
    let state := bits k.atuData 0 4
    let setPrio := prioOverrideState (addr 0 % 2 = 1) state
    some {
      fid := k.fid
      addr := addr
      qpri := ⟨setPrio, if setPrio then bits k.atuOp 8 3 else 0⟩
      fpri := ⟨haveFpri && setPrio, if haveFpri && setPrio then bits k.atuOp 0 3 else 0⟩
      lag := bit k.atuData 15
      portvec := BitVec.ofNat 16 (bits k.atuData 4 11)
      state := state }

/-! ## Families and chips -/

/-- `struct family`, less the port functions, which all families share. -/
structure Family where
  devAtuParse : MvAtuEntry → Option AtuEntry
  devVtuParse : MvVtuEntry → Option VtuEntry
  devStuParse : MvStuEntry → Option StuEntry

/-- `opal_family`. -/
def opalFamily : Family where
  devAtuParse := devAtuParse false
  devVtuParse := devVtuParse opalBits
  devStuParse := devStuParse opalBits

/-- `peridot_family`. -/
def peridotFamily : Family where
  devAtuParse := devAtuParse true
  devVtuParse := devVtuParse peridotBits
  devStuParse := devStuParse peridotBits

/-- `amethyst_family`. -/
def amethystFamily : Family where
  devAtuParse := devAtuParse true
  devVtuParse := devVtuParse peridotBits
  devStuParse := devStuParse peridotBits

/-- `struct chip`. -/
structure Chip where
  id : CStr
  family : Family
  nPorts : Nat

/-- `chips`. -/
def chips : List Chip :=
  [⟨"Marvell 88E6097/88E6097F".toList, opalFamily, 11⟩,
    ⟨"Marvell 88E6352".toList, opalFamily, 7⟩,
    ⟨"Marvell 88E6320".toList, opalFamily, 7⟩,
    ⟨"Marvell 88E6321".toList, opalFamily, 7⟩,
    ⟨"Marvell 88E6190".toList, peridotFamily, 11⟩,
    ⟨"Marvell 88E6190X".toList, peridotFamily, 11⟩,
    ⟨"Marvell 88E6191".toList, peridotFamily, 11⟩,
    ⟨"Marvell 88E6191X".toList, amethystFamily, 11⟩,
    ⟨"Marvell 88E6193X".toList, amethystFamily, 11⟩,
    ⟨"Marvell 88E6290".toList, peridotFamily, 11⟩,
    ⟨"Marvell 88E6390".toList, peridotFamily, 11⟩,
    ⟨"Marvell 88E6390X".toList, peridotFamily, 11⟩,
    ⟨"Marvell 88E6393X".toList, amethystFamily, 11⟩]

end MdioTools.Mvls
