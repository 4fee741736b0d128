import MdioTools.Kernel.Vm

/-!
# The interpreter refines the virtual machine

The C interpreter keeps the program counter in an {lit}`unsigned int` to which
negative jump offsets are added.  On a program within the policy the wrapped
counter always stands for an integer close to the program, so the test
{lit}`pc < prog_len` decides as the integer test does, and the interpreter and
the machine of {lit}`Vm` run in lockstep.

Main results:

- Theorem {lit}`evalInsn_of_decode`: one decoded instruction has the same
  effect in both.
- Theorem {lit}`mdioNlEval_refines`: runs match step by step, from any pair of
  corresponding states.
-/

namespace MdioTools.Kernel

open Library

variable {π β : Type}

/-! ## Corresponding states and results -/

/-- The interpreter state that stands for a machine state. -/
def VmState.toEval (t : VmState π β) : EvalState π β where
  pc := BitVec.ofInt 32 t.pc
  regs := t.data.regs
  ret := 0
  host := t.data.host
  bus := t.data.bus

/-- The exit of the interpreter loop for each reason to stop. -/
def VmStop.toExit : VmStop → EvalExit
  | .done => .progEnd
  | .late => .timeout
  | .access => .access
  | .emit => .emit

/-- The interpreter result that stands for a machine result. -/
def VmResult.toEval (r : VmResult π β) : EvalResult π β :=
  .returned r.why.toExit r.status r.host r.bus

/-- An interpreter state corresponds to a machine state when it stands for it
and the integer counter is within one jump of the program. -/
def Corresponds (len : Nat) (s : EvalState π β) (t : VmState π β) : Prop :=
  s = t.toEval ∧ -32768 ≤ t.pc ∧ t.pc ≤ len + 32768

/-- The program of a list of words, decoded. -/
def Decodes (prog : List MdioNlInsn) (vprog : List VmInsn) : Prop :=
  prog.map decodeInsn = vprog.map some

/-- A decoded program is as long as the program. -/
theorem Decodes.length_eq {prog : List MdioNlInsn} {vprog : List VmInsn}
    (h : Decodes prog vprog) : vprog.length = prog.length := by
  have hlen := congrArg List.length h
  simpa using hlen.symm

theorem Decodes.getElem? {prog : List MdioNlInsn} {vprog : List VmInsn}
    (h : Decodes prog vprog) (i : Nat) : prog[i]?.map decodeInsn = vprog[i]?.map some := by
  have hget := congrArg (fun l => l[i]?) h
  simpa using hget

/-- An accepted program decodes. -/
theorem exists_decodes_of_valid {prog : List MdioNlInsn}
    (h : ∀ insn ∈ prog, mdioNlValidateInsn insn = .ok ()) : ∃ vprog, Decodes prog vprog := by
  induction prog with
  | nil => exact ⟨[], rfl⟩
  | cons insn rest ih =>
      obtain ⟨v, hv⟩ := decodeInsn_isSome_of_valid (h insn (by simp))
      obtain ⟨vrest, hrest⟩ := ih fun i hi => h i (by simp [hi])
      refine ⟨v :: vrest, ?_⟩
      unfold Decodes at hrest ⊢
      simp [hv, hrest]

/-! ## One instruction -/

/-- The interpreter result of a machine step outcome, before the counter moves. -/
def liftExec (pc : Int) :
    (Int × VmData π β) ⊕ VmResult π β → EvalState π β ⊕ EvalResult π β
  | .inl (disp, d) => .inl (VmState.toEval ⟨pc + disp, d⟩)
  | .inr r => .inr r.toEval

theorem ofInt_add_one (pc : Int) : BitVec.ofInt 32 (pc + 1) = BitVec.ofInt 32 pc + 1 := by
  rw [BitVec.ofInt_add]
  rfl

theorem ofInt_add_jump (pc : Int) (off : BitVec 16) :
    BitVec.ofInt 32 (pc + (off.toInt + 1)) = BitVec.ofInt 32 pc + off.signExtend 32 + 1 := by
  rw [← Int.add_assoc, ofInt_add_one, BitVec.ofInt_add]
  rfl

/-- A logical instruction does what it is decoded as. -/
theorem evalInsn_of_decodeAlu {op : AluOp} {insn : MdioNlInsn} {v : VmInsn}
    (h : decodeAlu op insn = some v) (bus : MiiBus β) (host : Host π) (pc : Int)
    (d : VmData π β) :
    (do let a ← argRi insn.arg0 d.regs
        let b ← argRi insn.arg1 d.regs
        let dst ← argR insn.arg2
        some (Sum.inl ((VmState.toEval ⟨pc, d⟩).store dst (op.apply a b)))) =
      some (liftExec pc (v.exec bus host d)) := by
  simp only [decodeAlu, Option.bind_eq_bind, Option.bind_eq_some_iff, Option.some.injEq] at h
  obtain ⟨a, ha, b, hb, dst, hdst, rfl⟩ := h
  simp [argRi_eq_of_decodeRi ha, argRi_eq_of_decodeRi hb, hdst, VmInsn.exec, liftExec,
    VmState.toEval, EvalState.store, ofInt_add_one]

/-- The interpreter executes a decoded instruction as the machine does. -/
theorem evalInsn_of_decode {insn : MdioNlInsn} {v : VmInsn} (h : decodeInsn insn = some v)
    (bus : MiiBus β) (host : Host π) (pc : Int) (d : VmData π β) :
    evalInsn bus host insn (VmState.toEval ⟨pc, d⟩) =
      some (liftExec pc (v.exec bus host d)) := by
  unfold decodeInsn at h
  unfold evalInsn
  cases hop : MdioNlOp.ofCode insn.op with
  | none => simp [hop] at h
  | some op =>
      rw [hop] at h
      cases op with
      | unspec => simp at h
      | and => exact evalInsn_of_decodeAlu h bus host pc d
      | or => exact evalInsn_of_decodeAlu h bus host pc d
      | add => exact evalInsn_of_decodeAlu h bus host pc d
      | read =>
          simp only [Option.bind_eq_bind, Option.bind_eq_some_iff, Option.some.injEq] at h
          obtain ⟨dev, hdev, reg, hreg, dst, hdst, rfl⟩ := h
          simp only [VmState.toEval, argRi_eq_of_decodeRi hdev, argRi_eq_of_decodeRi hreg, hdst,
            Option.bind_eq_bind, Option.bind_some, VmInsn.exec]
          by_cases hneg : (bus.read (mdioTarget (dev.eval d.regs)) (reg.eval d.regs) d.bus).1 < 0 <;>
            simp [hneg, liftExec, VmState.toEval, VmResult.toEval, VmStop.toExit,
              EvalState.store, ofInt_add_one]
      | write =>
          simp only [Option.bind_eq_bind, Option.bind_eq_some_iff, Option.some.injEq] at h
          obtain ⟨dev, hdev, reg, hreg, val, hval, rfl⟩ := h
          simp only [VmState.toEval, argRi_eq_of_decodeRi hdev, argRi_eq_of_decodeRi hreg,
            argRi_eq_of_decodeRi hval, Option.bind_eq_bind, Option.bind_some, VmInsn.exec]
          by_cases hneg : (bus.write (mdioTarget (dev.eval d.regs)) (reg.eval d.regs)
              (val.eval d.regs) d.bus).1 < 0 <;>
            simp [hneg, liftExec, VmState.toEval, VmResult.toEval, VmStop.toExit,
              EvalState.next, ofInt_add_one]
      | jeq =>
          simp only [decodeJump, Option.bind_eq_bind, Option.bind_eq_some_iff,
            Option.some.injEq] at h
          obtain ⟨a, ha, b, hb, off, hoff, rfl⟩ := h
          simp only [VmState.toEval, argRi_eq_of_decodeRi ha, argRi_eq_of_decodeRi hb, hoff,
            Option.bind_eq_bind, Option.bind_some, VmInsn.exec]
          split <;> simp_all [liftExec, VmState.toEval, EvalState.next, EvalState.jump,
            ofInt_add_one, ofInt_add_jump]
      | jne =>
          simp only [decodeJump, Option.bind_eq_bind, Option.bind_eq_some_iff,
            Option.some.injEq] at h
          obtain ⟨a, ha, b, hb, off, hoff, rfl⟩ := h
          simp only [VmState.toEval, argRi_eq_of_decodeRi ha, argRi_eq_of_decodeRi hb, hoff,
            Option.bind_eq_bind, Option.bind_some, VmInsn.exec]
          split <;> simp_all [liftExec, VmState.toEval, EvalState.next, EvalState.jump,
            ofInt_add_one, ofInt_add_jump]
      | emit =>
          simp only [Option.bind_eq_bind, Option.bind_eq_some_iff, Option.some.injEq] at h
          obtain ⟨a, ha, rfl⟩ := h
          simp only [VmState.toEval, argRi_eq_of_decodeRi ha, Option.bind_eq_bind,
            Option.bind_some, VmInsn.exec]
          by_cases hneg : (host.emit ((a.eval d.regs).setWidth 32) d.host).1 < 0 <;>
            simp [hneg, liftExec, VmState.toEval, VmResult.toEval, VmStop.toExit,
              EvalState.next, ofInt_add_one]

/-! ## One step and whole runs -/

/-- Close to a short program the wrapped counter is inside the program exactly
when the integer counter is. -/
theorem toNat_ofInt_lt_iff {len : Nat} {pc : Int} (hlen : len ≤ 512) (hge : -32768 ≤ pc)
    (hle : pc ≤ len + 32768) :
    (BitVec.ofInt 32 pc).toNat < len ↔ 0 ≤ pc ∧ pc < len := by
  rw [BitVec.toNat_ofInt]
  omega

theorem toNat_ofInt_of_nonneg {pc : Int} (hnonneg : 0 ≤ pc) (hlt : pc < 2 ^ 32) :
    (BitVec.ofInt 32 pc).toNat = pc.toNat := by
  rw [BitVec.toNat_ofInt]
  omega

/-- A jump has a reach of 16 bits, counted from the next instruction. -/
theorem VmInsn.exec_disp_bounds {bus : MiiBus β} {host : Host π} {v : VmInsn}
    {d d' : VmData π β} {disp : Int} (h : v.exec bus host d = .inl (disp, d')) :
    -32767 ≤ disp ∧ disp ≤ 32768 := by
  cases v with
  | jump onEq a b off =>
      have hlo := BitVec.le_toInt off
      have hhi := BitVec.toInt_lt (x := off)
      simp only [VmInsn.exec, Sum.inl.injEq, Prod.mk.injEq] at h
      obtain ⟨hdisp, -⟩ := h
      split at hdisp <;> omega
  | alu op a b dst =>
      simp only [VmInsn.exec, Sum.inl.injEq, Prod.mk.injEq] at h
      omega
  | read dev reg dst =>
      simp only [VmInsn.exec] at h
      split at h
      · cases h
      · simp only [Sum.inl.injEq, Prod.mk.injEq] at h
        omega
  | write dev reg val =>
      simp only [VmInsn.exec] at h
      split at h
      · cases h
      · simp only [Sum.inl.injEq, Prod.mk.injEq] at h
        omega
  | emit a =>
      simp only [VmInsn.exec] at h
      split at h
      · cases h
      · simp only [Sum.inl.injEq, Prod.mk.injEq] at h
        omega

/-- One loop iteration of the interpreter matches one step of the machine. -/
theorem evalStep_matches {prog : List MdioNlInsn} {vprog : List VmInsn}
    (hdec : Decodes prog vprog) (hlen : prog.length ≤ 512) (bus : MiiBus β) (host : Host π)
    (s : EvalState π β) (t : VmState π β) (hst : Corresponds prog.length s t) :
    Machine.Match (Corresponds prog.length) (fun r r' => r = r'.toEval)
      (evalStep prog bus host s) (codeStep (vmSem bus host) vprog t) := by
  obtain ⟨rfl, hge, hle⟩ := hst
  have hlen' := hdec.length_eq
  have hiff := toNat_ofInt_lt_iff hlen hge hle
  unfold evalStep codeStep
  by_cases hin : 0 ≤ t.pc ∧ t.pc < prog.length
  · have hlt : t.toEval.pc.toNat < prog.length := hiff.mpr hin
    have hidx : t.toEval.pc.toNat = t.pc.toNat := toNat_ofInt_of_nonneg hin.1 (by omega)
    have hvlt : t.pc.toNat < vprog.length := by omega
    have hfetch : fetch vprog t.pc = some vprog[t.pc.toNat] := by
      simp [fetch, hin.1, hvlt]
    have hinsn : decodeInsn prog[t.toEval.pc.toNat] = some vprog[t.pc.toNat] := by
      have hget := hdec.getElem? t.pc.toNat
      rw [List.getElem?_eq_getElem hvlt, List.getElem?_eq_getElem (by omega)] at hget
      simpa [hidx] using hget
    rw [dif_pos hlt, hfetch]
    cases hlate : (host.expired t.data.host).1 with
    | true =>
        simp only [VmState.toEval, vmSem, hlate, if_true]
        rfl
    | false =>
        have hexec := evalInsn_of_decode hinsn bus host t.pc
          { t.data with host := (host.expired t.data.host).2 }
        simp only [VmState.toEval, vmSem, hlate, Bool.false_eq_true, if_false] at hexec ⊢
        rw [hexec]
        cases hout : vprog[t.pc.toNat].exec bus host
            { t.data with host := (host.expired t.data.host).2 } with
        | inl out =>
            have hbounds := VmInsn.exec_disp_bounds hout
            exact ⟨rfl, by simp only; omega, by simp only; omega⟩
        | inr r => rfl
  · have hnlt : ¬t.toEval.pc.toNat < prog.length := fun h => hin (hiff.mp h)
    have hfetch : fetch vprog t.pc = none := by
      rw [fetch_eq_none_iff, hlen']
      exact hin
    rw [dif_neg hnlt, hfetch]
    rfl

/-- Runs of the interpreter match runs of the machine, from any corresponding
states and for any number of steps. -/
theorem mdioNlEval_refines {prog : List MdioNlInsn} {vprog : List VmInsn}
    (hdec : Decodes prog vprog) (hlen : prog.length ≤ 512) (bus : MiiBus β) (host : Host π)
    {s : EvalState π β} {t : VmState π β} (hst : Corresponds prog.length s t) (n : Nat) :
    Machine.Match (Corresponds prog.length) (fun r r' => r = r'.toEval)
      ((mdioNlEval prog bus host).run n s) ((vm vprog bus host).run n t) :=
  Machine.run_rel (evalStep_matches hdec hlen bus host) hst n

/-- The two machines start in corresponding states. -/
theorem entry_corresponds (len : Nat) (h : π) (b : β) :
    Corresponds len (EvalState.entry h b) (VmState.entry h b) :=
  ⟨rfl, by simp [VmState.entry], by simp [VmState.entry]; omega⟩

end MdioTools.Kernel
