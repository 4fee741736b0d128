import MdioTools.Device.Bench

/-!
# Indirect accesses as a whole

The `mmd-c22` and the paged driver reach their registers in several transactions.
Their operations act on these registers and on nothing else that can be seen from
outside: the one like Clause 45 accesses to the same registers, the other with the
page register as it was.

Main results:

- Theorem {lit}`mmd_c22_agrees`: all operations of the `mmd` and of the `mmd-c22`
  driver do the same.
- Theorem {lit}`pphy_transparent`: the operations of the paged driver.
-/

namespace MdioTools.Device

open Client Kernel

/-! ## Agreement -/

/-- For every port, MMD and state of the bus, the operations of the `mmd` and of
the `mmd-c22` driver emit the same words and leave the same MMD registers: those
with the addressed register read, replaced, or replaced under the mask.  The reads of
their benchmarks bring the same values. -/
theorem mmd_c22_agrees (c : C45Id) (s : MmdState) :
    (∀ (reg : BitVec 32) (write : Option (BitVec 32 × BitVec 32)), ∃ s₁ s₂,
      (mdioNlEval (mdioCommonRawProg (phyDriver c.id) reg write) mmdBus.bus quietHost).Halts
        (.entry [] s) (.returned .progEnd 0 (RegAccess.rawWords s.regs (mmdAddr c reg) write) s₁) ∧
      (mdioNlEval (mdioCommonRawProg (mmdC22Driver c.id) reg write) mmdBus.bus quietHost).Halts
        (.entry [] s) (.returned .progEnd 0 (RegAccess.rawWords s.regs (mmdAddr c reg) write) s₂) ∧
      s₁.regs = RegAccess.rawRegs s.regs (mmdAddr c reg) write ∧ s₂.regs = s₁.regs) ∧
    (∀ (reg : BitVec 32) (val : Option (BitVec 32)), ∃ s₁ s₂,
      (mdioNlEval (mdioCommonBenchProg (phyDriver c.id) reg val) mmdBus.bus quietHost).Halts
        (.entry [] s) (.returned .progEnd 0 [] s₁) ∧
      (mdioNlEval (mdioCommonBenchProg (mmdC22Driver c.id) reg val) mmdBus.bus quietHost).Halts
        (.entry [] s) (.returned .progEnd 0 [] s₂) ∧
      BenchReads mmdBus (.phy c.id) reg val
        (RegAccess.benchRegs s.regs (mmdAddr c reg) val (mmdAddr c reg)) s s₁ ∧
      BenchReads mmdBus (.mmdC22 c.id) reg val
        (RegAccess.benchRegs s.regs (mmdAddr c reg) val (mmdAddr c reg)) s s₂ ∧
      s₁.regs = RegAccess.benchRegs s.regs (mmdAddr c reg) val ∧ s₂.regs = s₁.regs) ∧
    ∀ (range : RegRange) (regs : List (BitVec 32)) (prog prog' : MdioProg),
      range.regs = some regs → mdioCommonDumpProg (phyDriver c.id) range = some prog →
      mdioCommonDumpProg (mmdC22Driver c.id) range = some prog' →
      prog.length ≤ 512 → prog'.length ≤ 512 → ∃ s₁ s₂,
      (mdioNlEval prog mmdBus.bus quietHost).Halts (.entry [] s)
        (.returned .progEnd 0 (regs.map fun r => (s.regs (mmdAddr c r)).setWidth 32) s₁) ∧
      (mdioNlEval prog' mmdBus.bus quietHost).Halts (.entry [] s)
        (.returned .progEnd 0 (regs.map fun r => (s.regs (mmdAddr c r)).setWidth 32) s₂) ∧
      s₁.regs = s.regs ∧ s₂.regs = s₁.regs := by
  have hmmd : (mmdAccess c).Faithful := fun _ _ => rfl
  have hc22 : (mmdC22Access c).Faithful := fun _ _ => rfl
  refine ⟨?_, ?_, ?_⟩
  · intro reg write
    obtain ⟨s₁, hrun₁, hregs₁⟩ := (mmdAccess c).raw_halts reg hmmd trivial rfl write
    obtain ⟨s₂, hrun₂, hregs₂⟩ := (mmdC22Access c).raw_halts reg hc22 trivial rfl write
    exact ⟨s₁, s₂, hrun₁, hrun₂, hregs₁, Eq.trans hregs₂ (Eq.symm hregs₁)⟩
  · intro reg val
    obtain ⟨s₁, hrun₁, hreads₁, hregs₁⟩ := RegAccess.bench_reads (.phy c.id) (mmdAccess c) hmmd
      (fun _ _ => rfl) trivial trivial rfl val
    obtain ⟨s₂, hrun₂, hreads₂, hregs₂⟩ := RegAccess.bench_reads (.mmdC22 c.id) (mmdC22Access c) hc22
      (fun _ _ => rfl) trivial trivial rfl val
    exact ⟨s₁, s₂, hrun₁, hrun₂, hreads₁, hreads₂, hregs₁, Eq.trans hregs₂ (Eq.symm hregs₁)⟩
  · intro range regs prog prog' hrange hprog hprog' hlen hlen'
    simp only [mdioCommonDumpProg, phyDriver, mmdC22Driver, hrange, Option.map_some,
      Option.some.injEq] at hprog hprog'
    subst hprog hprog'
    obtain ⟨s₁, hrun₁, hregs₁⟩ :=
      (mmdAccess c).dump_halts regs (fun _ _ => trivial) rfl hlen
    obtain ⟨s₂, hrun₂, hregs₂⟩ :=
      (mmdC22Access c).dump_halts regs (fun _ _ => trivial) rfl hlen'
    exact ⟨s₁, s₂, hrun₁, hrun₂, hregs₁, Eq.trans hregs₂ (Eq.symm hregs₁)⟩

/-- The dump of registers 0 to 2 of MMD 4 of port 9 is within the limit. -/
theorem mmd_c22_agrees_dump_9_4 : ∃ prog' : MdioProg, ∃ s₂ : MmdState,
    mdioCommonDumpProg (mmdC22Driver 0x8124) ⟨0, 2⟩ = some prog' ∧
      (mdioNlEval prog' mmdBus.bus quietHost).Halts
        (.entry [] ⟨fun a => a.2.2 + 7, fun _ => 0, fun _ => 0⟩)
        (.returned .progEnd 0 [7, 8, 9] s₂) := by
  obtain ⟨s₁, s₂, -, hrun, -⟩ := (mmd_c22_agrees ⟨0x8124, 9, 4, by decide, by decide, by decide⟩
    ⟨fun a => a.2.2 + 7, fun _ => 0, fun _ => 0⟩).2.2 ⟨0, 2⟩ [0, 1, 2] _ _ rfl rfl rfl
    (by decide) (by decide)
  exact ⟨_, s₂, rfl, hrun⟩

/-! ## Transparency -/

/-- For every page register, every content of it, every register file and every
register other than the page register, the raw operations and the benchmark act
on the register of the requested page only, end with the old page register, and
do not write it when it holds the requested page.  The reads of the benchmark are those
of this register. -/
theorem pphy_transparent (pdev : PphyDevice) (s : PagedState) (reg : BitVec 32)
    (hreg : pphyReg reg ≠ pdev.pageReg.setWidth 16) :
    (∀ write : Option (BitVec 32 × BitVec 32), ∃ s',
      (mdioNlEval (mdioCommonRawProg (pphyDriver pdev) reg write) (pagedPhy pdev).bus
          quietHost).Halts (.entry [] s) (.returned .progEnd 0
        (RegAccess.rawWords s.regs ((pphyPage reg).setWidth 16, pphyReg reg) write) s') ∧
      s'.regs = RegAccess.rawRegs s.regs ((pphyPage reg).setWidth 16, pphyReg reg) write ∧
      s'.page = s.page ∧
      (s.page = (pphyPage reg).setWidth 16 → s'.pageWrites = s.pageWrites)) ∧
    ∀ val : Option (BitVec 32), ∃ s',
      (mdioNlEval (mdioCommonBenchProg (pphyDriver pdev) reg val) (pagedPhy pdev).bus
          quietHost).Halts (.entry [] s) (.returned .progEnd 0 [] s') ∧
      BenchReads (pagedPhy pdev) (.pphy pdev) reg val
        (RegAccess.benchRegs s.regs ((pphyPage reg).setWidth 16, pphyReg reg) val
          ((pphyPage reg).setWidth 16, pphyReg reg)) s s' ∧
      s'.regs = RegAccess.benchRegs s.regs ((pphyPage reg).setWidth 16, pphyReg reg) val ∧
      s'.page = s.page ∧
      (s.page = (pphyPage reg).setWidth 16 → s'.pageWrites = s.pageWrites) := by
  let acc := pphyAccess pdev s.page (pphyPage reg) s.pageWrites
  have hfaithful : acc.Faithful := fun _ _ => rfl
  have hvalid : acc.valid reg := ⟨rfl, hreg⟩
  have hrep : acc.rep s s.regs := ⟨rfl, rfl, fun _ => rfl⟩
  constructor
  · intro write
    obtain ⟨s', hhalts, hrep'⟩ := acc.raw_halts reg hfaithful hvalid hrep write
    exact ⟨s', hhalts, hrep'.regs, hrep'.page, hrep'.quiet⟩
  · intro val
    obtain ⟨s', hhalts, hreads, hrep'⟩ := RegAccess.bench_reads (.pphy pdev) acc hfaithful
      (fun _ _ => rfl) trivial hvalid hrep val
    exact ⟨s', hhalts, hreads, hrep'.regs, hrep'.page, hrep'.quiet⟩

/-- The hypothesis is met by register 1 of the fiber page of an Alaska PHY,
whose page register is 22 and holds another page. -/
theorem pphy_transparent_fiber_1 :
    (∃ s' : PagedState, (mdioNlEval (mdioCommonRawProg (pphyDriver ⟨1, 0x16⟩) 0x10001 none)
        (pagedPhy ⟨1, 0x16⟩).bus quietHost).Halts (.entry [] ⟨5, fun a => a.1 + a.2, []⟩)
        (.returned .progEnd 0 [2] s') ∧ s'.page = 5) ∧
      ∃ s' : PagedState, BenchReads (pagedPhy ⟨1, 0x16⟩) (.pphy ⟨1, 0x16⟩) 0x10001 none 2
        ⟨5, fun a => a.1 + a.2, []⟩ s' ∧ s'.page = 5 := by
  have hboth := pphy_transparent ⟨1, 0x16⟩ ⟨5, fun a => a.1 + a.2, []⟩ 0x10001 (by decide)
  obtain ⟨s₁, hhalts, -, hpage₁, -⟩ := hboth.1 none
  obtain ⟨s₂, -, hreads, -, hpage₂, -⟩ := hboth.2 none
  exact ⟨⟨s₁, hhalts, hpage₁⟩, s₂, hreads, hpage₂⟩

end MdioTools.Device
