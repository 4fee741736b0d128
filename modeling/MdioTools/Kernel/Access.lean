import MdioTools.Kernel.Eval

/-!
# The transactions of a run

READ and WRITE take the device and the register of their transaction from their
first two arguments.  What a program can reach on the bus is therefore decided by
its instructions and the registers of the machine.

Main results:

- Definition {lit}`EvalState.access`: the transaction of the next iteration.
- Theorem {lit}`Accesses.access`: the transactions of a run are among those of
  the instructions.
- Theorems {lit}`access_entry` and {lit}`access_second`: the transactions that a
  run begins with.
-/

namespace MdioTools.Kernel

open Library

variable {π β : Type}

/-! ## One transaction -/

/-- The target and the register of the transaction of an instruction. -/
def insnAccess (insn : MdioNlInsn) (regs : Regs) : Option (MdioTarget × BitVec 16) :=
  if accessesBus insn then do
    let dev ← argRi insn.arg0 regs
    let reg ← argRi insn.arg1 regs
    some (mdioTarget dev, reg)
  else none

/-- The transaction of the next iteration. -/
def EvalState.access (prog : List MdioNlInsn) (host : Host π) (s : EvalState π β) :
    Option (MdioTarget × BitVec 16) :=
  if (host.expired s.host).1 then none else prog[s.pc.toNat]?.bind (insnAccess · s.regs)

/-! ## The transactions of a program -/

/-- Every transaction of every instruction is one of `P`, whatever is in the
registers. -/
def Accesses (P : MdioTarget → BitVec 16 → Prop) (prog : List MdioNlInsn) : Prop :=
  ∀ insn ∈ prog, ∀ regs t reg, insnAccess insn regs = some (t, reg) → P t reg

/-- So is then every transaction of a run. -/
theorem Accesses.access {P : MdioTarget → BitVec 16 → Prop} {prog : List MdioNlInsn}
    (h : Accesses P prog) {host : Host π} {s : EvalState π β} {t : MdioTarget} {reg : BitVec 16}
    (hs : s.access prog host = some (t, reg)) : P t reg := by
  unfold EvalState.access at hs
  split_ifs at hs
  obtain ⟨insn, hinsn, haccess⟩ := Option.bind_eq_some_iff.mp hs
  exact h insn (List.mem_of_getElem? hinsn) s.regs t reg haccess

theorem insnAccess_imm {i : MdioNlInsn} (h : accessesBus i = true) {a r : BitVec 32}
    (h0 : i.arg0 = (immArg a).setWidth 18) (h1 : i.arg1 = (immArg r).setWidth 18) (regs : Regs) :
    insnAccess i regs = some (mdioTarget (a.setWidth 16), r.setWidth 16) := by
  rw [insnAccess, if_pos h, h0, h1, argRi_immArg, argRi_immArg]
  rfl

theorem insnAccess_read (a r d : BitVec 32) (regs : Regs) :
    insnAccess (insn .read (immArg a) (immArg r) d) regs =
      some (mdioTarget (a.setWidth 16), r.setWidth 16) :=
  insnAccess_imm rfl rfl rfl regs

theorem insnAccess_write (a r v : BitVec 32) (regs : Regs) :
    insnAccess (insn .write (immArg a) (immArg r) v) regs =
      some (mdioTarget (a.setWidth 16), r.setWidth 16) :=
  insnAccess_imm rfl rfl rfl regs

/-! ### Pushing instructions -/

namespace Accesses

variable {P : MdioTarget → BitVec 16 → Prop} {prog : List MdioNlInsn}

theorem nil : Accesses P [] :=
  fun _ h => nomatch h

theorem push (h : Accesses P prog) {i : MdioNlInsn}
    (hi : ∀ regs t reg, insnAccess i regs = some (t, reg) → P t reg) : Accesses P (prog ++ [i]) := by
  intro j hj
  obtain hj | hj := List.mem_append.mp hj
  · exact h j hj
  · rw [List.mem_singleton.mp hj]
    exact hi

/-- An instruction that does not access the bus. -/
theorem pushQuiet (h : Accesses P prog) {i : MdioNlInsn} (hi : accessesBus i = false) :
    Accesses P (prog ++ [i]) := by
  refine h.push fun regs t reg haccess => ?_
  rw [insnAccess, hi] at haccess
  cases haccess

theorem pushRead (h : Accesses P prog) {a r : BitVec 32}
    (hP : P (mdioTarget (a.setWidth 16)) (r.setWidth 16)) (d : BitVec 32) :
    Accesses P (prog ++ [insn .read (immArg a) (immArg r) d]) := by
  refine h.push fun regs t reg haccess => ?_
  rw [insnAccess_read, Option.some.injEq, Prod.mk.injEq] at haccess
  obtain ⟨rfl, rfl⟩ := haccess
  exact hP

theorem pushWrite (h : Accesses P prog) {a r : BitVec 32}
    (hP : P (mdioTarget (a.setWidth 16)) (r.setWidth 16)) (v : BitVec 32) :
    Accesses P (prog ++ [insn .write (immArg a) (immArg r) v]) := by
  refine h.push fun regs t reg haccess => ?_
  rw [insnAccess_write, Option.some.injEq, Prod.mk.injEq] at haccess
  obtain ⟨rfl, rfl⟩ := haccess
  exact hP

/-- A function that is called for each element of a list. -/
theorem foldl {α : Type} {step : List MdioNlInsn → α → List MdioNlInsn} {l : List α}
    (hstep : ∀ a ∈ l, ∀ prog, Accesses P prog → Accesses P (step prog a)) (h : Accesses P prog) :
    Accesses P (l.foldl step prog) := by
  induction l generalizing prog with
  | nil => exact h
  | cons a l ih =>
      exact ih (fun b hb => hstep b (List.mem_cons_of_mem _ hb))
        (hstep a List.mem_cons_self prog h)

end Accesses

/-! ## How a run begins -/

/-- The transaction of the first instruction. -/
theorem access_entry {insn : MdioNlInsn} {prog : List MdioNlInsn} (h : [insn] <+: prog)
    (host : Host π) (hst : π) (hclock : (host.expired hst).1 = false) (b : β) :
    (EvalState.entry hst b).access prog host = insnAccess insn fun _ => 0 := by
  obtain ⟨rest, rfl⟩ := h
  unfold EvalState.access EvalState.entry
  rw [hclock]
  rfl

/-- An addition of immediate values stores the sum and goes on. -/
theorem evalInsn_add (bus : MiiBus β) (host : Host π) (x y d : BitVec 32) (s : EvalState π β) :
    evalInsn bus host (insn .add (immArg x) (immArg y) (regArg d)) s =
      some (.inl (s.store (regIndex d) (x.setWidth 16 + y.setWidth 16))) := by
  have hadd : MdioNlOp.ofCode (insn .add (immArg x) (immArg y) (regArg d)).op = some .add := rfl
  unfold evalInsn
  rw [hadd]
  simp only [insn, argRi_immArg, argR_regArg, Option.bind_eq_bind, Option.bind_some]

/-- The transaction of the second instruction, behind an addition. -/
theorem access_second {x y d : BitVec 32} {second : MdioNlInsn} {prog : List MdioNlInsn}
    (h : [insn .add (immArg x) (immArg y) (regArg d), second] <+: prog) (bus : MiiBus β)
    (host : Host π) (hclock : ∀ hst, (host.expired hst).1 = false) (hst : π) (b : β) :
    ∃ s, (mdioNlEval prog bus host).Reaches (EvalState.entry hst b) s ∧
      s.access prog host = insnAccess second s.regs := by
  obtain ⟨rest, rfl⟩ := h
  refine ⟨({ EvalState.entry hst b with host := (host.expired hst).2 } : EvalState π β).store
    (regIndex d) (x.setWidth 16 + y.setWidth 16), Machine.Reaches.single ?_, ?_⟩
  · change evalStep (_ :: _ :: rest) bus host (EvalState.entry hst b) = _
    have hin : (EvalState.entry hst b : EvalState π β).pc.toNat <
        (insn .add (immArg x) (immArg y) (regArg d) :: second :: rest).length := Nat.succ_pos _
    rw [evalStep, dif_pos hin]
    simp only [EvalState.entry, hclock, Bool.false_eq_true, if_false]
    change (evalInsn bus host (insn .add (immArg x) (immArg y) (regArg d)) _).getD _ = _
    rw [evalInsn_add]
    rfl
  · unfold EvalState.access
    rw [hclock]
    rfl

end MdioTools.Kernel
