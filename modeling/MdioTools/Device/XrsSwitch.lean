import MdioTools.Client.Xrs
import MdioTools.Device.RegAccess

/-!
# XRS switches

The registers of the switch are reached through an address in two registers and
a data register: writing the lower half of the address loads the data register
from the addressed register, or stores it there when bit 0 is set.  The write
hook of the driver makes an immediate value of the operand word it is given, so
what it stores is the number of a register and not its content.

Main results:

- Definition {lit}`xrsSwitch`: the device.
- Definition {lit}`xrsAccess`: the driver meets the contract of register access
  with another value than that of the operand.
- Theorem {lit}`xrs_stores_operand_iff`: when the value of the operand is
  stored all the same.
- Theorem {lit}`xrs_loses_register_operand`: a masked write that is lost.
-/

namespace MdioTools.Device

open Client Kernel

/-! ## The device -/

/-- The registers, by the upper and the even lower half of their address, and
the three interface registers. -/
structure XrsState where
  regs : BitVec 16 × BitVec 16 → BitVec 16
  iba0 : BitVec 16
  iba1 : BitVec 16
  ibd : BitVec 16

/-- A write of IBA0: the access to the addressed register. -/
def XrsState.access (s : XrsState) (iba0 : BitVec 16) : XrsState :=
  let a := (s.iba1, iba0 &&& 0xfffe#16)
  if iba0.getLsbD 0 then { s with iba0 := iba0, regs := Function.update s.regs a s.ibd }
  else { s with iba0 := iba0, ibd := s.regs a }

/-- An XRS switch with a device word. -/
def xrsSwitch (id : BitVec 16) : Device XrsState where
  read t reg s :=
    if t = mdioTarget id then
      if reg = xrsIba0.setWidth 16 then (s.iba0, s)
      else if reg = xrsIba1.setWidth 16 then (s.iba1, s)
      else if reg = xrsIbd.setWidth 16 then (s.ibd, s)
      else (BitVec.allOnes 16, s)
    else (BitVec.allOnes 16, s)
  write t reg val s :=
    if t = mdioTarget id then
      if reg = xrsIba0.setWidth 16 then s.access val
      else if reg = xrsIba1.setWidth 16 then { s with iba1 := val }
      else if reg = xrsIbd.setWidth 16 then { s with ibd := val }
      else s
    else s

/-- The switch register at a 32-bit address. -/
def xrsAddr (reg : BitVec 32) : BitVec 16 × BitVec 16 :=
  ((reg >>> 16).setWidth 16, (reg &&& 0xfffe).setWidth 16)

/-! ## The fragments -/

/-- A write of an interface register. -/
theorem xrsWrite_runs (id : BitVec 16) {a : BitVec 32} {A : Operand}
    (ha : decodeRi (a.setWidth 18) = some A) (reg : BitVec 32) (d : VmData Words XrsState) :
    Runs (xrsSwitch id) [insn .write (immArg (id.setWidth 32)) (immArg reg) a] d
      ⟨d.regs, d.host,
        (xrsSwitch id).write (mdioTarget id) (reg.setWidth 16) (A.eval d.regs) d.bus⟩ := by
  have hwrite := Runs.write (xrsSwitch id) d (decodeRi_immArg (id.setWidth 32))
    (decodeRi_immArg reg) ha
  simpa only [Operand.eval_imm, setWidth_setWidth32] using hwrite

/-- The interface registers are three. -/
theorem xrsRegs_distinct : (xrsIba0.setWidth 16 : BitVec 16) ≠ xrsIba1.setWidth 16 ∧
    (xrsIbd.setWidth 16 : BitVec 16) ≠ xrsIba0.setWidth 16 ∧
    (xrsIbd.setWidth 16 : BitVec 16) ≠ xrsIba1.setWidth 16 := by
  decide

/-- The words that the driver writes to IBA0. -/
theorem xrsIba0_words (reg : BitVec 32) :
    (((reg &&& 0xfffe).setWidth 16 : BitVec 16).getLsbD 0 = false ∧
        ((reg &&& 0xfffe).setWidth 16 : BitVec 16) &&& 0xfffe#16 =
          (reg &&& 0xfffe).setWidth 16) ∧
      (((reg &&& 0xfffe) ||| 1).setWidth 16 : BitVec 16).getLsbD 0 = true ∧
      (((reg &&& 0xfffe) ||| 1).setWidth 16 : BitVec 16) &&& 0xfffe#16 =
        (reg &&& 0xfffe).setWidth 16 := by
  refine ⟨⟨?_, ?_⟩, ?_, ?_⟩
  · simp
  · ext i hi
    simp
  · simp
  · ext i hi
    by_cases hzero : i = 0
    · subst hzero
      simp
    · simp [hzero]

/-- What the switch does with the three words of a write. -/
theorem xrs_store (id : BitVec 16) (reg : BitVec 32) (val : BitVec 16) (s : XrsState) :
    ((xrsSwitch id).write (mdioTarget id) (xrsIba0.setWidth 16)
      (((reg &&& 0xfffe) ||| 1).setWidth 16)
      ((xrsSwitch id).write (mdioTarget id) (xrsIba1.setWidth 16) ((reg >>> 16).setWidth 16)
        ((xrsSwitch id).write (mdioTarget id) (xrsIbd.setWidth 16) val s))).regs =
      Function.update s.regs (xrsAddr reg) val := by
  obtain ⟨h01, hd0, hd1⟩ := xrsRegs_distinct
  obtain ⟨-, hodd, hmask⟩ := xrsIba0_words reg
  simp only [xrsSwitch, if_true, if_neg h01.symm, if_neg hd0, if_neg hd1, XrsState.access, hodd,
    hmask]
  rfl

/-- What the switch does with the two words and the read of a read. -/
theorem xrs_load (id : BitVec 16) (reg : BitVec 32) (s : XrsState) :
    let s' := (xrsSwitch id).write (mdioTarget id) (xrsIba0.setWidth 16)
      ((reg &&& 0xfffe).setWidth 16)
      ((xrsSwitch id).write (mdioTarget id) (xrsIba1.setWidth 16) ((reg >>> 16).setWidth 16) s)
    (xrsSwitch id).read (mdioTarget id) (xrsIbd.setWidth 16) s' = (s.regs (xrsAddr reg), s') ∧
      s'.regs = s.regs := by
  obtain ⟨h01, hd0, hd1⟩ := xrsRegs_distinct
  obtain ⟨⟨heven, hmask⟩, -⟩ := xrsIba0_words reg
  simp only [xrsSwitch, if_true, if_neg h01.symm, if_neg hd0, if_neg hd1, XrsState.access, heven,
    hmask, Bool.false_eq_true, if_false]
  exact ⟨rfl, trivial⟩

/-- The value of the immediate that the write hook makes of an operand word. -/
def xrsStore (o : WriteOperand) (_ : Regs) : BitVec 16 :=
  o.word.setWidth 16

/-- The driver meets the contract, with the operand word in the place of the
operand's value. -/
def xrsAccess (id : BitVec 16) : RegAccess (xrsSwitch id) (xrsDriver id) (BitVec 16 × BitVec 16)
    where
  valid _ := True
  addr := xrsAddr
  rep s ω := s.regs = ω
  store := xrsStore
  read_append _ _ := by simp [xrsDriver, xrsRead, mdioProgPush]
  write_append _ _ _ := by simp [xrsDriver, xrsWrite, mdioProgPush]
  read_length _ := by simp [xrsDriver, xrsRead, mdioProgPush]
  write_length _ _ := by simp [xrsDriver, xrsWrite, mdioProgPush]
  read_runs := by
    rintro reg d ω - rfl
    have haddr := (xrsWrite_runs id (decodeRi_immArg
      (((reg >>> 16).setWidth 16 : BitVec 16).setWidth 32)) xrsIba1 d).append
      (xrsWrite_runs id (decodeRi_immArg (((reg &&& 0xfffe).setWidth 16 : BitVec 16).setWidth 32))
        xrsIba0 _)
    simp only [Operand.eval_imm, setWidth_setWidth32] at haddr
    obtain ⟨hload, hregs⟩ := xrs_load id reg d.bus
    have hall := haddr.append
      (Runs.read _ _ (decodeRi_immArg (id.setWidth 32)) (decodeRi_immArg xrsIbd) 0)
    simp only [Operand.eval_imm, setWidth_setWidth32, hload] at hall
    exact ⟨_, hall, ⟨rfl, rfl, rfl⟩, rfl, hregs⟩
  write_runs := by
    rintro reg d ω - rfl o
    have hall := ((xrsWrite_runs id (decodeRi_immArg o.word) xrsIbd d).append
      (xrsWrite_runs id (decodeRi_immArg (((reg >>> 16).setWidth 16 : BitVec 16).setWidth 32))
        xrsIba1 _)).append
      (xrsWrite_runs id (decodeRi_immArg
        ((((reg &&& 0xfffe) ||| 1).setWidth 16 : BitVec 16).setWidth 32)) xrsIba0 _)
    simp only [Operand.eval_imm, setWidth_setWidth32] at hall
    exact ⟨_, hall, ⟨rfl, rfl, rfl⟩, xrs_store id reg _ d.bus⟩

/-! ## What is stored -/

/-- The value of the operand is the low half of its word: an immediate, or a
register that holds its own number. -/
def WriteOperand.NamesItself (o : WriteOperand) (regs : Regs) : Prop :=
  match o with
  | .imm _ => True
  | .raw => regs 0 = 0
  | .bench => regs 7 = 7

theorem argWord_low (mode : MdioNlArgmode) (value : BitVec 16) :
    (argWord mode value).setWidth 16 = value := by
  ext i hi
  simp [argWord]

theorem xrsStore_eq_value_iff (o : WriteOperand) (regs : Regs) :
    xrsStore o regs = o.value regs ↔ o.NamesItself regs := by
  cases o with
  | imm val =>
      have hlow : xrsStore (.imm val) regs = val.setWidth 16 := argWord_low .imm _
      exact iff_of_true hlow trivial
  | raw => exact eq_comm
  | bench => exact eq_comm

theorem update_other {ω : BitVec 16 × BitVec 16 → BitVec 16} {a : BitVec 16 × BitVec 16}
    {val : BitVec 16} {s : XrsState} (h : s.regs = Function.update ω a val) :
    (∀ b, b ≠ a → s.regs b = ω b) ∧ s.regs a = val := by
  rw [h]
  exact ⟨fun b hb => Function.update_of_ne hb .., Function.update_self ..⟩

/-- A masked write stores 0. -/
theorem xrs_masked_halts (id : BitVec 16) (s : XrsState) (reg val mask : BitVec 32)
    (hmask : mask ≠ 0) :
    ∃ s', (mdioNlEval (mdioCommonRawProg (xrsDriver id) reg (some (val, mask)))
        (xrsSwitch id).bus quietHost).Halts (.entry [] s) (.returned .progEnd 0 [] s') ∧
      s'.regs = Function.update s.regs (xrsAddr reg) 0 := by
  obtain ⟨d', regs, hrun, hhost, -, hregs⟩ := (xrsAccess id).raw_masked reg
    (d := ⟨fun _ => 0, [], s⟩) trivial rfl val hmask
  have hhalts := hrun.halts (RegAccess.rawProg_length (xrsAccess id).relocates _)
  rw [hhost] at hhalts
  exact ⟨d'.bus, hhalts, hregs⟩

/-- The write fragment stores the value of its operand exactly when the operand
is an immediate or a register that holds its own number.  So an unmasked write
always stores the value, a masked one only when the result is 0, and a benchmark
only when the value is 7; no other register is changed. -/
theorem xrs_stores_operand_iff (id : BitVec 16) (s : XrsState) (reg : BitVec 32) :
    (∀ (o : WriteOperand) (regs : Regs) (words : Words) (pre post : MdioProg),
      (∀ i ∈ pre ++ post, mdioNlValidateInsn i = .ok ()) →
      (xrsWrite id pre reg o.word ++ post).length ≤ 512 →
      ∃ d', (mdioNlEval (xrsWrite id pre reg o.word ++ post) (xrsSwitch id).bus quietHost).Reaches
          (.at pre.length ⟨regs, words, s⟩) (.at (xrsWrite id pre reg o.word).length d') ∧
        d'.host = words ∧ (∀ a, a ≠ xrsAddr reg → d'.bus.regs a = s.regs a) ∧
        (d'.bus.regs (xrsAddr reg) = o.value regs ↔ o.NamesItself regs)) ∧
    (∀ val mask : BitVec 32, ∃ s',
      (mdioNlEval (mdioCommonRawProg (xrsDriver id) reg (some (val, mask))) (xrsSwitch id).bus
          quietHost).Halts (.entry [] s) (.returned .progEnd 0 [] s') ∧
        (∀ a, a ≠ xrsAddr reg → s'.regs a = s.regs a) ∧
        (s'.regs (xrsAddr reg) = RegAccess.rawRegs s.regs (xrsAddr reg) (some (val, mask))
            (xrsAddr reg) ↔
          mask = 0 ∨ RegAccess.maskedValue (s.regs (xrsAddr reg)) val mask = 0)) ∧
    ∀ val : BitVec 32, ∃ s' words,
      (mdioNlEval (mdioCommonBenchProg (xrsDriver id) reg (some val)) (xrsSwitch id).bus
          quietHost).Halts (.entry [] s) (.returned .progEnd 0 words s') ∧
        (∀ a, a ≠ xrsAddr reg → s'.regs a = s.regs a) ∧
        (s'.regs (xrsAddr reg) = val.setWidth 16 ↔ val.setWidth 16 = (7 : BitVec 16)) := by
  refine ⟨?_, ?_, ?_⟩
  · intro o regs words pre post hok hlen
    obtain ⟨d', hreach, hkeeps, hregs⟩ := (xrsAccess id).write_reaches reg
      (d := ⟨regs, words, s⟩) trivial rfl o hok hlen
    obtain ⟨hother, hself⟩ := update_other hregs
    refine ⟨d', hreach, hkeeps.host, hother, ?_⟩
    have hiff := xrsStore_eq_value_iff o regs
    rw [← hiff]
    exact Eq.congr_left hself
  · intro val mask
    by_cases hmask : mask = 0
    · subst hmask
      obtain ⟨d', hrun, hhost, hregs⟩ := (xrsAccess id).raw_write reg
        (d := ⟨fun _ => 0, [], s⟩) trivial rfl val
      obtain ⟨hother, hself⟩ := update_other hregs
      have hhalts := hrun.halts (RegAccess.rawProg_length (xrsAccess id).relocates _)
      rw [hhost] at hhalts
      refine ⟨d'.bus, hhalts, hother, iff_of_true ?_ (Or.inl rfl)⟩
      have hstored := (xrsStore_eq_value_iff (.imm val) fun _ => 0).mpr trivial
      rw [RegAccess.rawRegs, Function.update_self]
      exact hself.trans hstored
    · obtain ⟨s', hhalts, hregs⟩ := xrs_masked_halts id s reg val mask hmask
      obtain ⟨hother, hself⟩ := update_other hregs
      refine ⟨s', hhalts, hother, ?_⟩
      rw [hself, RegAccess.rawRegs, Function.update_self, if_neg hmask, eq_comm]
      exact (or_iff_right hmask).symm
  · intro val
    obtain ⟨d', regs, hrun, hreg7, hhost, hregs⟩ := (xrsAccess id).bench_write reg
      (d := ⟨fun _ => 0, [], s⟩) trivial rfl val
    obtain ⟨hother, hself⟩ := update_other hregs
    have hhalts := hrun.halts (RegAccess.benchProg_length (xrsAccess id).relocates _)
    refine ⟨d'.bus, d'.host, hhalts, hother, ?_⟩
    have hseven : (xrsAccess id).store .bench regs = 7 := by
      have hlow : xrsStore .bench regs = 7 := argWord_low .reg _
      exact hlow
    have hstored : d'.bus.regs (xrsAddr reg) = 7 := hself.trans hseven
    rw [hstored, eq_comm]

/-- The fragments are inside an accepted program when they are the whole. -/
theorem xrs_stores_operand_iff_bench : ∃ d' : VmData Words XrsState,
    (mdioNlEval (xrsWrite 1 [] 0x10 WriteOperand.bench.word) (xrsSwitch 1).bus quietHost).Reaches
      (.at 0 ⟨fun _ => 7, [], ⟨fun _ => 0, 0, 0, 0⟩⟩) (.at 3 d') ∧
      d'.bus.regs (xrsAddr 0x10) = 7 := by
  obtain ⟨d', hreach, -, -, hiff⟩ := (xrs_stores_operand_iff 1 ⟨fun _ => 0, 0, 0, 0⟩ 0x10).1
    .bench (fun _ => 7) [] [] [] (by simp) (by decide)
  exact ⟨d', hreach, hiff.mpr rfl⟩

/-- On a switch whose registers hold 0x1234, {lit}`raw 0x10 5/0xff00` on device 1
does not leave 0x1205 in register 0x10. -/
theorem xrs_loses_register_operand :
    ¬∃ s', (mdioNlEval (mdioCommonRawProg (xrsDriver 1) 0x10 (some (5, 0xff00)))
        (xrsSwitch 1).bus quietHost).Halts (.entry [] ⟨fun _ => 0x1234, 0, 0, 0⟩)
        (.returned .progEnd 0 [] s') ∧
      s'.regs (xrsAddr 0x10) = RegAccess.maskedValue 0x1234 5 0xff00 := by
  rintro ⟨s', hhalts, hstored⟩
  obtain ⟨s₁, hhalts₁, hregs⟩ := xrs_masked_halts 1 ⟨fun _ => 0x1234, 0, 0, 0⟩ 0x10 5
    0xff00 (by decide)
  have hsame := hhalts.unique hhalts₁
  simp only [EvalResult.returned.injEq, true_and] at hsame
  rw [hsame, hregs, Function.update_self] at hstored
  exact absurd hstored (by decide)

end MdioTools.Device
