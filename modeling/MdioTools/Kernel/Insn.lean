import Mathlib.Algebra.Order.Ring.Nat
import Mathlib.Logic.Function.Basic
import Mathlib.Tactic.Common

/-!
# The byte code of `mdio-netlink`

One instruction is a 64-bit word with an opcode and three 18-bit arguments; an
argument is a two-bit mode over a 16-bit value.  This module gives the words of
{lit}`include/linux/mdio-netlink.h`, the argument accessors of the kernel
module, and the macros of {lit}`src/mdio/mdio.h` with which the client writes
instructions.

Main results:

- Theorems {lit}`argRi_immArg` and {lit}`argRi_regArg`: the operand words built
  by the client are read back by the kernel as the value, or as the register,
  they were built from.
- Theorem {lit}`argI_gotoArg`: a jump built by {lit}`GOTO` carries the distance
  between the two instruction indices.
-/

namespace MdioTools.Kernel

/-! ## Error numbers -/

def enomem : Int := 12
def enodev : Int := 19
def einval : Int := 22
def erange : Int := 34
def enosys : Int := 38
def emsgsize : Int := 90
def etimedout : Int := 110

/-! ## Opcodes and argument modes -/

/-- `enum mdio_nl_op`. -/
inductive MdioNlOp
  | unspec | read | write | and | or | add | jeq | jne | emit
deriving DecidableEq, Repr

/-- The value of an opcode in the `op` field. -/
def MdioNlOp.code : MdioNlOp → BitVec 8
  | .unspec => 0
  | .read => 1
  | .write => 2
  | .and => 3
  | .or => 4
  | .add => 5
  | .jeq => 6
  | .jne => 7
  | .emit => 8

/-- `MDIO_NL_OP_MAX`. -/
def mdioNlOpMax : BitVec 8 := 8

/-- The opcode with a given value; a value above `MDIO_NL_OP_MAX` has none. -/
def MdioNlOp.ofCode (c : BitVec 8) : Option MdioNlOp :=
  [MdioNlOp.unspec, .read, .write, .and, .or, .add, .jeq, .jne, .emit][c.toNat]?

/-- An operation is found by its code. -/
@[simp]
theorem MdioNlOp.ofCode_code (o : MdioNlOp) : MdioNlOp.ofCode o.code = some o := by
  cases o <;> rfl

/-- Every value up to `MDIO_NL_OP_MAX` is an opcode. -/
theorem MdioNlOp.ofCode_isSome_iff (c : BitVec 8) :
    (MdioNlOp.ofCode c).isSome ↔ c ≤ mdioNlOpMax := by
  simp [MdioNlOp.ofCode, mdioNlOpMax, BitVec.le_def, Nat.lt_succ_iff]

/-- `enum mdio_nl_argmode`. -/
inductive MdioNlArgmode
  | none | reg | imm | reserved
deriving DecidableEq, Repr

/-- The value of an argument mode, the two bits above the 16-bit value. -/
def MdioNlArgmode.code : MdioNlArgmode → BitVec 32
  | .none => 0
  | .reg => 1
  | .imm => 2
  | .reserved => 3

/-- The mode of an argument, `arg >> 16`. -/
def argMode (arg : BitVec 18) : MdioNlArgmode :=
  match (arg >>> 16).toNat with
  | 0 => .none
  | 1 => .reg
  | 2 => .imm
  | _ => .reserved

/-- The value of an argument, `arg & 0xffff`. -/
def argVal (arg : BitVec 18) : BitVec 16 :=
  (arg &&& 0xffff).setWidth 16

/-- The register index of an argument, `arg & 0x7`. -/
def argIndex (arg : BitVec 18) : Fin 8 :=
  ⟨arg.toNat &&& 0x7, Nat.lt_succ_of_le Nat.and_le_right⟩

/-- `struct mdio_nl_insn`: a 64-bit word of bit fields. -/
structure MdioNlInsn where
  op : BitVec 8
  reserved : BitVec 2
  arg0 : BitVec 18
  arg1 : BitVec 18
  arg2 : BitVec 18
deriving DecidableEq, Repr

/-- `sizeof(struct mdio_nl_insn)`. -/
def sizeofInsn : Nat := 8

/-- The register file `u16 regs[8]`. -/
abbrev Regs : Type := Fin 8 → BitVec 16

/-- A numeral names a register. -/
instance regsNeZero : NeZero 8 := ⟨by decide⟩

/-! ## Argument accessors of the kernel

A result of {lean}`none` is a `BUG_ON` or `BUG` that fires. -/

/-- `__arg_r`: the register an argument names. -/
def argR (arg : BitVec 18) : Option (Fin 8) :=
  if argMode arg ≠ .reg then none else some (argIndex arg)

/-- `__arg_i`: the immediate value of an argument. -/
def argI (arg : BitVec 18) : Option (BitVec 16) :=
  if argMode arg ≠ .imm then none else some (argVal arg)

/-- `__arg_ri`: the value of an argument, immediate or from a register. -/
def argRi (arg : BitVec 18) (regs : Regs) : Option (BitVec 16) :=
  match argMode arg with
  | .imm => some (argVal arg)
  | .reg => some (regs (argIndex arg))
  | _ => none

/-- The value of an argument is its low 16 bits. -/
theorem argVal_eq (arg : BitVec 18) : argVal arg = arg.setWidth 16 := by
  apply BitVec.eq_of_toNat_eq
  have h : arg.toNat % 65536 &&& 65535 = arg.toNat % 65536 % 65536 :=
    Nat.and_two_pow_sub_one_eq_mod _ 16
  simp [argVal, h]

/-! ## Client macros -/

/-- The word `(mode << 16) | (uint16_t)value` shared by the operand macros. -/
def argWord (mode : MdioNlArgmode) (value : BitVec 16) : BitVec 32 :=
  (mode.code <<< 16) ||| value.setWidth 32

/-- `REG(_r)`. -/
def regArg (r : BitVec 32) : BitVec 32 :=
  argWord .reg (r.setWidth 16)

/-- `IMM(_n)`. -/
def immArg (n : BitVec 32) : BitVec 32 :=
  argWord .imm (n.setWidth 16)

/-- `GOTO(_from, _to)`: a jump from the instruction at index `src` to the one
at index `dst`. -/
def gotoArg (src dst : Int) : BitVec 32 :=
  argWord .imm (BitVec.ofInt 16 (dst - src - 1))

/-- `INSN(_op, _a0, _a1, _a2)`: the argument words are cut to 18 bits. -/
def insn (op : MdioNlOp) (a0 a1 a2 : BitVec 32) : MdioNlInsn where
  op := op.code
  reserved := 0
  arg0 := a0.setWidth 18
  arg1 := a1.setWidth 18
  arg2 := a2.setWidth 18

/-! ## The client's words as the kernel reads them -/

/-- The value of an operand word is read back. -/
@[simp]
theorem argVal_argWord (mode : MdioNlArgmode) (value : BitVec 16) :
    argVal ((argWord mode value).setWidth 18) = value := by
  rw [argVal_eq]
  ext i hi
  simp [argWord]

/-- The mode of an operand word is read back. -/
@[simp]
theorem argMode_argWord (mode : MdioNlArgmode) (value : BitVec 16) :
    argMode ((argWord mode value).setWidth 18) = mode := by
  have hshift :
      ((argWord mode value).setWidth 18) >>> 16 = (mode.code.setWidth 2).setWidth 18 := by
    ext i hi
    simp [argWord]
    grind
  unfold argMode
  rw [hshift]
  cases mode <;> rfl

/-- The register of an operand word is taken modulo 8. -/
theorem argIndex_argWord (mode : MdioNlArgmode) (value : BitVec 16) :
    (argIndex ((argWord mode value).setWidth 18)).val = value.toNat % 8 := by
  have hval := congrArg BitVec.toNat (argVal_argWord mode value)
  rw [argVal_eq] at hval
  simp only [BitVec.toNat_setWidth] at hval
  have hand : ∀ n : Nat, n &&& 7 = n % 8 := fun n => Nat.and_two_pow_sub_one_eq_mod n 3
  simp only [argIndex, hand, BitVec.toNat_setWidth]
  omega

/-- The register index named by a client register operand. -/
def regIndex (r : BitVec 32) : Fin 8 :=
  ⟨r.toNat % 8, Nat.mod_lt _ (by decide)⟩

/-- The register of `REG(r)`. -/
@[simp]
theorem argIndex_regArg (r : BitVec 32) : argIndex ((regArg r).setWidth 18) = regIndex r := by
  apply Fin.ext
  rw [regArg, argIndex_argWord]
  simp [regIndex]

/-- `IMM(n)` is read as its value. -/
@[simp]
theorem argRi_immArg (n : BitVec 32) (regs : Regs) :
    argRi ((immArg n).setWidth 18) regs = some (n.setWidth 16) := by
  simp only [argRi, immArg, argMode_argWord, argVal_argWord]

/-- `REG(r)` is read as the contents of the register. -/
@[simp]
theorem argRi_regArg (r : BitVec 32) (regs : Regs) :
    argRi ((regArg r).setWidth 18) regs = some (regs (regIndex r)) := by
  have hmode : argMode ((regArg r).setWidth 18) = .reg := argMode_argWord _ _
  simp only [argRi, hmode, argIndex_regArg]

/-- `REG(r)` as a destination. -/
@[simp]
theorem argR_regArg (r : BitVec 32) :
    argR ((regArg r).setWidth 18) = some (regIndex r) := by
  have hmode : argMode ((regArg r).setWidth 18) = .reg := argMode_argWord _ _
  simp only [argR, hmode, argIndex_regArg, ne_eq, not_true_eq_false, if_false]

/-- `IMM(n)` as a jump. -/
@[simp]
theorem argI_immArg (n : BitVec 32) :
    argI ((immArg n).setWidth 18) = some (n.setWidth 16) := by
  simp only [argI, immArg, argMode_argWord, argVal_argWord, ne_eq, not_true_eq_false, if_false]

/-- `GOTO` is read as the distance between the two indices. -/
@[simp]
theorem argI_gotoArg (src dst : Int) :
    argI ((gotoArg src dst).setWidth 18) = some (BitVec.ofInt 16 (dst - src - 1)) := by
  simp only [argI, gotoArg, argMode_argWord, argVal_argWord, ne_eq, not_true_eq_false, if_false]

end MdioTools.Kernel
