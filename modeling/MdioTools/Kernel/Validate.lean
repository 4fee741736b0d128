import Mathlib.Tactic.IntervalCases
import MdioTools.Kernel.Insn

/-!
# Validation of byte-code programs

The policy of the `mdio` generic netlink family checks a program before it is
run: the payload of the attribute is at most 0x1000 bytes, a whole number of
instructions, and every instruction has a known opcode whose three arguments
have a mode that the opcode allows.

Main results:

- Theorem {lit}`mdioNlValidateInsn_ok_iff`: an instruction is accepted exactly
  when its opcode is known and its argument modes are in the opcode's table.
- Theorem {lit}`mdioNlValidateProg_ok`: every instruction of an accepted
  program is accepted.
-/

namespace MdioTools.Kernel

/-- A negative return value with the message left in the extended ack. -/
structure ExtAck where
  err : Int
  msg : String
deriving DecidableEq, Repr

/-- `BIT(nr)`. -/
def bit (nr : Nat) : BitVec 8 :=
  1 <<< nr

/-- `struct mdio_nl_op_proto`: for each argument the set of allowed modes. -/
structure MdioNlOpProto where
  arg0 : BitVec 8
  arg1 : BitVec 8
  arg2 : BitVec 8

/-- `BIT(MDIO_NL_ARG_NONE)`, `BIT(MDIO_NL_ARG_REG)` and `BIT(MDIO_NL_ARG_IMM)`. -/
def protoNone : BitVec 8 := bit 0
def protoR : BitVec 8 := bit 1
def protoI : BitVec 8 := bit 2
def protoRI : BitVec 8 := bit 1 ||| bit 2

/-- `mdio_nl_op_protos`; the entry of `MDIO_NL_OP_UNSPEC` is all zero. -/
def mdioNlOpProtos : MdioNlOp → MdioNlOpProto
  | .unspec => ⟨0, 0, 0⟩
  | .read => ⟨protoRI, protoRI, protoR⟩
  | .write => ⟨protoRI, protoRI, protoRI⟩
  | .and => ⟨protoRI, protoRI, protoR⟩
  | .or => ⟨protoRI, protoRI, protoR⟩
  | .add => ⟨protoRI, protoRI, protoR⟩
  | .jeq => ⟨protoRI, protoRI, protoI⟩
  | .jne => ⟨protoRI, protoRI, protoI⟩
  | .emit => ⟨protoRI, protoNone, protoNone⟩

/-- `BIT(arg >> 16) & proto`. -/
def protoAllows (proto : BitVec 8) (arg : BitVec 18) : Bool :=
  bit (arg >>> 16).toNat &&& proto ≠ 0

/-- `mdio_nl_validate_insn`. -/
def mdioNlValidateInsn (insn : MdioNlInsn) : Except ExtAck Unit :=
  match MdioNlOp.ofCode insn.op with
  | none => .error ⟨-einval, "Illegal instruction"⟩
  | some op =>
      let proto := mdioNlOpProtos op
      if !protoAllows proto.arg0 insn.arg0 then
        .error ⟨-einval, "Argument 0 invalid"⟩
      else if !protoAllows proto.arg1 insn.arg1 then
        .error ⟨-einval, "Argument 1 invalid"⟩
      else if !protoAllows proto.arg2 insn.arg2 then
        .error ⟨-einval, "Argument 2 invalid"⟩
      else .ok ()

/-- The payload of a `MDIO_NLA_PROG` attribute: its length in bytes and the
whole instructions in it. -/
structure ProgAttr where
  len : Nat
  insns : List MdioNlInsn
  length_insns : insns.length = len / sizeofInsn

/-- The loop of `mdio_nl_validate_prog` over the instructions. -/
def validateInsns : List MdioNlInsn → Except ExtAck Unit
  | [] => .ok ()
  | insn :: rest =>
      match mdioNlValidateInsn insn with
      | .error e => .error e
      | .ok () => validateInsns rest

/-- `mdio_nl_validate_prog`. -/
def mdioNlValidateProg (attr : ProgAttr) : Except ExtAck Unit :=
  if attr.len % sizeofInsn ≠ 0 then
    .error ⟨-einval, "Unaligned instruction"⟩
  else validateInsns attr.insns

/-- The `MDIO_NLA_PROG` entry of `mdio_nl_policy`: the length bound and the
validation function. -/
def mdioNlPolicyProg (attr : ProgAttr) : Prop :=
  attr.len ≤ 0x1000 ∧ mdioNlValidateProg attr = .ok ()

/-! ## What an accepted program is -/

/-- The argument modes allowed by a set of mode bits. -/
theorem protoAllows_iff (arg : BitVec 18) :
    (protoAllows protoRI arg ↔ argMode arg = .reg ∨ argMode arg = .imm) ∧
      (protoAllows protoR arg ↔ argMode arg = .reg) ∧
      (protoAllows protoI arg ↔ argMode arg = .imm) ∧
      (protoAllows protoNone arg ↔ argMode arg = .none) := by
  have hlt : (arg >>> 16).toNat < 4 := by
    have := arg.isLt
    simp only [BitVec.toNat_ushiftRight, Nat.shiftRight_eq_div_pow]
    omega
  unfold protoAllows argMode
  generalize (arg >>> 16).toNat = mode at hlt
  interval_cases mode <;> decide

/-- An instruction is accepted exactly when its opcode is known and every
argument has an allowed mode. -/
theorem mdioNlValidateInsn_ok_iff (insn : MdioNlInsn) :
    mdioNlValidateInsn insn = .ok () ↔
      ∃ op, MdioNlOp.ofCode insn.op = some op ∧
        protoAllows (mdioNlOpProtos op).arg0 insn.arg0 ∧
        protoAllows (mdioNlOpProtos op).arg1 insn.arg1 ∧
        protoAllows (mdioNlOpProtos op).arg2 insn.arg2 := by
  unfold mdioNlValidateInsn
  cases hop : MdioNlOp.ofCode insn.op with
  | none => simp
  | some op =>
      simp only [Option.some.injEq, exists_eq_left']
      split_ifs <;> simp_all

theorem validateInsns_ok_iff (insns : List MdioNlInsn) :
    validateInsns insns = .ok () ↔ ∀ insn ∈ insns, mdioNlValidateInsn insn = .ok () := by
  induction insns with
  | nil => simp [validateInsns]
  | cons insn rest ih =>
      cases hinsn : mdioNlValidateInsn insn with
      | error e => simp [validateInsns, hinsn]
      | ok u => simp [validateInsns, hinsn, ih]

/-- Every instruction of an accepted program is accepted. -/
theorem mdioNlValidateProg_ok {attr : ProgAttr} (h : mdioNlValidateProg attr = .ok ()) :
    ∀ insn ∈ attr.insns, mdioNlValidateInsn insn = .ok () := by
  unfold mdioNlValidateProg at h
  split at h
  · cases h
  · exact (validateInsns_ok_iff attr.insns).mp h

/-- A program within the policy has at most 512 instructions. -/
theorem mdioNlPolicyProg.length_le {attr : ProgAttr} (h : mdioNlPolicyProg attr) :
    attr.insns.length ≤ 512 := by
  have hlen := h.1
  have hinsns := attr.length_insns
  unfold sizeofInsn at hinsns
  omega

end MdioTools.Kernel
