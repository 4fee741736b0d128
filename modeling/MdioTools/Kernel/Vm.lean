import MdioTools.Kernel.Eval
import MdioTools.Kernel.Validate
import MdioTools.Library.Code

/-!
# The virtual machine the byte code is meant for

The documented machine has eight 16-bit registers, typed instructions and an
integer program counter.  It has no {lit}`BUG` and no illegal instruction: an
operand that does not exist cannot be written down.  This module gives that
machine as a meaning of relocatable code, and decodes byte code into its
instructions.

Main results:

- Definition {lit}`vm`: the machine on one program.
- Theorem {lit}`decodeInsn_isSome_of_valid`: every accepted instruction decodes.
-/

namespace MdioTools.Kernel

open Library

/-! ## Instructions -/

/-- An operand, a register or an immediate value. -/
inductive Operand
  | reg (r : Fin 8)
  | imm (n : BitVec 16)
deriving DecidableEq, Repr

/-- The value of an operand. -/
def Operand.eval (regs : Regs) : Operand → BitVec 16
  | .reg r => regs r
  | .imm n => n

@[simp]
theorem Operand.eval_reg (regs : Regs) (r : Fin 8) : (Operand.reg r).eval regs = regs r :=
  rfl

@[simp]
theorem Operand.eval_imm (regs : Regs) (n : BitVec 16) : (Operand.imm n).eval regs = n :=
  rfl

/-- The three arithmetic operations. -/
inductive AluOp
  | and | or | add
deriving DecidableEq, Repr

def AluOp.apply : AluOp → BitVec 16 → BitVec 16 → BitVec 16
  | .and, a, b => a &&& b
  | .or, a, b => a ||| b
  | .add, a, b => a + b

/-- A typed instruction.  A jump is taken when the test `a = b` has the value
`onEq`. -/
inductive VmInsn
  | read (dev reg : Operand) (dst : Fin 8)
  | write (dev reg val : Operand)
  | alu (op : AluOp) (a b : Operand) (dst : Fin 8)
  | jump (onEq : Bool) (a b : Operand) (off : BitVec 16)
  | emit (a : Operand)
deriving DecidableEq, Repr

/-! ## The machine -/

/-- What a program works on: the registers, the host and the bus. -/
structure VmData (π β : Type) where
  regs : Regs
  host : π
  bus : β

/-- A machine state: an integer program counter and the data. -/
abbrev VmState (π β : Type) : Type :=
  CodeState (VmData π β)

/-- Why the machine stopped. -/
inductive VmStop
  | done | late | access | emit
deriving DecidableEq, Repr

/-- The result of a machine run. -/
structure VmResult (π β : Type) where
  why : VmStop
  status : Int
  host : π
  bus : β

variable {π β : Type}

/-- The effect of one instruction: the displacement of the program counter and
the new data, or the end of the run. -/
def VmInsn.exec (bus : MiiBus β) (host : Host π) (d : VmData π β) :
    VmInsn → (Int × VmData π β) ⊕ VmResult π β
  | .read dev reg dst =>
      let r := bus.read (mdioTarget (dev.eval d.regs)) (reg.eval d.regs) d.bus
      if r.1 < 0 then .inr ⟨.access, r.1, d.host, r.2⟩
      else .inl (1, { d with
        regs := Function.update d.regs dst (BitVec.ofInt 16 r.1)
        bus := r.2 })
  | .write dev reg val =>
      let r := bus.write (mdioTarget (dev.eval d.regs)) (reg.eval d.regs) (val.eval d.regs) d.bus
      if r.1 < 0 then .inr ⟨.access, r.1, d.host, r.2⟩
      else .inl (1, { d with bus := r.2 })
  | .alu op a b dst =>
      .inl (1, { d with
        regs := Function.update d.regs dst (op.apply (a.eval d.regs) (b.eval d.regs)) })
  | .jump onEq a b off =>
      .inl (if decide (a.eval d.regs = b.eval d.regs) = onEq then off.toInt + 1 else 1, d)
  | .emit a =>
      let r := host.emit ((a.eval d.regs).setWidth 32) d.host
      if r.1 < 0 then .inr ⟨.emit, r.1, r.2, d.bus⟩
      else .inl (1, { d with host := r.2 })

/-- The meaning of an instruction in a run: the clock is read first.  Outside
the program the machine stops with status 0. -/
def vmSem (bus : MiiBus β) (host : Host π) :
    CodeSem VmInsn (VmData π β) (VmResult π β) where
  exec insn d :=
    let clk := host.expired d.host
    if clk.1 then .inr ⟨.late, -etimedout, clk.2, d.bus⟩
    else insn.exec bus host { d with host := clk.2 }
  stop d := ⟨.done, 0, d.host, d.bus⟩

/-- The machine running one program. -/
def vm (prog : List VmInsn) (bus : MiiBus β) (host : Host π) :
    Machine (VmState π β) (VmResult π β) :=
  code (vmSem bus host) prog

/-- The start of a run: all registers zero. -/
def VmState.entry (host : π) (bus : β) : VmState π β :=
  ⟨0, ⟨fun _ => 0, host, bus⟩⟩

/-! ## Decoding -/

/-- The operand an argument stands for where both modes are allowed. -/
def decodeRi (arg : BitVec 18) : Option Operand :=
  match argMode arg with
  | .imm => some (.imm (argVal arg))
  | .reg => some (.reg (argIndex arg))
  | _ => none

/-- A decoded operand has the value that the accessor of the kernel finds. -/
theorem argRi_eq_of_decodeRi {arg : BitVec 18} {a : Operand} (h : decodeRi arg = some a)
    (regs : Regs) : argRi arg regs = some (a.eval regs) := by
  unfold decodeRi at h
  unfold argRi
  cases hmode : argMode arg <;> rw [hmode] at h <;> cases h <;> rfl

/-- Registers and immediates are decoded. -/
theorem decodeRi_isSome_iff (arg : BitVec 18) :
    (∃ a, decodeRi arg = some a) ↔ argMode arg = .reg ∨ argMode arg = .imm := by
  unfold decodeRi
  cases argMode arg <;> simp

/-- The arithmetic instruction with the arguments of a word. -/
def decodeAlu (op : AluOp) (insn : MdioNlInsn) : Option VmInsn := do
  let a ← decodeRi insn.arg0
  let b ← decodeRi insn.arg1
  let dst ← argR insn.arg2
  some (.alu op a b dst)

/-- The jump with the arguments of a word. -/
def decodeJump (onEq : Bool) (insn : MdioNlInsn) : Option VmInsn := do
  let a ← decodeRi insn.arg0
  let b ← decodeRi insn.arg1
  let off ← argI insn.arg2
  some (.jump onEq a b off)

/-- The typed instruction of a word. -/
def decodeInsn (insn : MdioNlInsn) : Option VmInsn :=
  match MdioNlOp.ofCode insn.op with
  | some .read => do
      let dev ← decodeRi insn.arg0
      let reg ← decodeRi insn.arg1
      let dst ← argR insn.arg2
      some (.read dev reg dst)
  | some .write => do
      let dev ← decodeRi insn.arg0
      let reg ← decodeRi insn.arg1
      let val ← decodeRi insn.arg2
      some (.write dev reg val)
  | some .and => decodeAlu .and insn
  | some .or => decodeAlu .or insn
  | some .add => decodeAlu .add insn
  | some .jeq => decodeJump true insn
  | some .jne => decodeJump false insn
  | some .emit => do
      let a ← decodeRi insn.arg0
      some (.emit a)
  | some .unspec | none => none

/-- Every accepted instruction decodes. -/
theorem decodeInsn_isSome_of_valid {insn : MdioNlInsn} (h : mdioNlValidateInsn insn = .ok ()) :
    ∃ v, decodeInsn insn = some v := by
  obtain ⟨op, hop, h0, h1, h2⟩ := (mdioNlValidateInsn_ok_iff insn).mp h
  have hri : ∀ arg, protoAllows protoRI arg → ∃ a, decodeRi arg = some a := fun arg ha =>
    (decodeRi_isSome_iff arg).mpr ((protoAllows_iff arg).1.mp ha)
  have hr : ∀ arg, protoAllows protoR arg → ∃ r, argR arg = some r := fun arg ha => by
    have hmode := (protoAllows_iff arg).2.1.mp ha
    exact ⟨argIndex arg, by simp [argR, hmode]⟩
  have hi : ∀ arg, protoAllows protoI arg → ∃ n, argI arg = some n := fun arg ha => by
    have hmode := (protoAllows_iff arg).2.2.1.mp ha
    exact ⟨argVal arg, by simp [argI, hmode]⟩
  unfold decodeInsn
  rw [hop]
  cases op with
  | unspec => simp [mdioNlOpProtos, protoAllows] at h0
  | read =>
      obtain ⟨a, ha⟩ := hri _ h0
      obtain ⟨b, hb⟩ := hri _ h1
      obtain ⟨r, hdst⟩ := hr _ h2
      simp [ha, hb, hdst]
  | write =>
      obtain ⟨a, ha⟩ := hri _ h0
      obtain ⟨b, hb⟩ := hri _ h1
      obtain ⟨c, hc⟩ := hri _ h2
      simp [ha, hb, hc]
  | and | or | add =>
      obtain ⟨a, ha⟩ := hri _ h0
      obtain ⟨b, hb⟩ := hri _ h1
      obtain ⟨r, hdst⟩ := hr _ h2
      simp [decodeAlu, ha, hb, hdst]
  | jeq | jne =>
      obtain ⟨a, ha⟩ := hri _ h0
      obtain ⟨b, hb⟩ := hri _ h1
      obtain ⟨n, hn⟩ := hi _ h2
      simp [decodeJump, ha, hb, hn]
  | emit =>
      obtain ⟨a, ha⟩ := hri _ h0
      simp [ha]

/-- An instruction that decodes runs into no `BUG`, whatever the state. -/
theorem evalInsn_isSome_of_decode {insn : MdioNlInsn} {v : VmInsn}
    (h : decodeInsn insn = some v) (bus : MiiBus β) (host : Host π) (s : EvalState π β) :
    (evalInsn bus host insn s).isSome := by
  unfold decodeInsn at h
  unfold evalInsn
  cases hop : MdioNlOp.ofCode insn.op with
  | none => rfl
  | some op =>
      rw [hop] at h
      cases op with
      | unspec => rfl
      | read =>
          simp only [Option.bind_eq_bind, Option.bind_eq_some_iff, Option.some.injEq] at h
          obtain ⟨a, ha, b, hb, dst, hdst, -⟩ := h
          simp only [argRi_eq_of_decodeRi ha, argRi_eq_of_decodeRi hb, hdst, Option.bind_eq_bind,
            Option.bind_some]
          split <;> rfl
      | write =>
          simp only [Option.bind_eq_bind, Option.bind_eq_some_iff, Option.some.injEq] at h
          obtain ⟨a, ha, b, hb, c, hc, -⟩ := h
          simp only [argRi_eq_of_decodeRi ha, argRi_eq_of_decodeRi hb, argRi_eq_of_decodeRi hc,
            Option.bind_eq_bind, Option.bind_some]
          split <;> rfl
      | and | or | add =>
          simp only [decodeAlu, Option.bind_eq_bind, Option.bind_eq_some_iff,
            Option.some.injEq] at h
          obtain ⟨a, ha, b, hb, dst, hdst, -⟩ := h
          simp [argRi_eq_of_decodeRi ha, argRi_eq_of_decodeRi hb, hdst]
      | jeq | jne =>
          simp only [decodeJump, Option.bind_eq_bind, Option.bind_eq_some_iff,
            Option.some.injEq] at h
          obtain ⟨a, ha, b, hb, off, hoff, -⟩ := h
          simp only [argRi_eq_of_decodeRi ha, argRi_eq_of_decodeRi hb, hoff, Option.bind_eq_bind,
            Option.bind_some]
          split <;> rfl
      | emit =>
          simp only [Option.bind_eq_bind, Option.bind_eq_some_iff, Option.some.injEq] at h
          obtain ⟨a, ha, -⟩ := h
          simp only [argRi_eq_of_decodeRi ha, Option.bind_eq_bind, Option.bind_some]
          split <;> rfl

/-- No iteration on an accepted program ends in a `BUG`. -/
theorem evalStep_ne_bug {prog : List MdioNlInsn}
    (hvalid : ∀ i ∈ prog, mdioNlValidateInsn i = .ok ()) (bus : MiiBus β) (host : Host π)
    (s : EvalState π β) : evalStep prog bus host s ≠ .inr .bug := by
  unfold evalStep
  by_cases hpc : s.pc.toNat < prog.length
  · rw [dif_pos hpc]
    by_cases hlate : (host.expired s.host).1 = true
    · simp [hlate]
    · obtain ⟨v, hv⟩ := decodeInsn_isSome_of_valid (hvalid _ (List.getElem_mem hpc))
      have hsome := evalInsn_isSome_of_decode hv bus host { s with host := (host.expired s.host).2 }
      obtain ⟨r, hr⟩ := Option.isSome_iff_exists.mp hsome
      simp only [hlate, Bool.false_eq_true, if_false, hr, Option.getD_some]
      rintro rfl
      exact evalInsn_host hr
  · simp [dif_neg hpc]

end MdioTools.Kernel
