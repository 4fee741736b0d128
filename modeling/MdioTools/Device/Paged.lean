import MdioTools.Client.PagedPhy
import MdioTools.Device.RegAccess

/-!
# Paged PHYs

A PHY whose page register selects, by its whole value, the page of all other
registers.  The driver saves the page register, switches to the requested page
if it is another one, and switches back.  From outside the page register is as
it was, and it is not even written when the requested page is selected already.

Main results:

- Theorems {lit}`pphyBusEnter_runs` and {lit}`pphyBusLeave_runs`: the two page
  switches on any device.
- Definition {lit}`pagedPhy`: the PHY, with a log of the writes to its page
  register.
- Theorems {lit}`pphyEnter_runs` and {lit}`pphyLeave_runs`: the two page
  switches on the PHY.
- Definition {lit}`pphyAccess`: the driver meets its contract.
-/

namespace MdioTools.Device

open Client Kernel

/-! ## The device -/

/-- The page register, the registers by page and number, and the values written
to the page register so far. -/
structure PagedState where
  page : BitVec 16
  regs : BitVec 16 × BitVec 16 → BitVec 16
  pageWrites : List (BitVec 16)

/-- A write of the page register. -/
def PagedState.select (s : PagedState) (page : BitVec 16) : PagedState :=
  { s with page := page, pageWrites := s.pageWrites ++ [page] }

/-- A write of a register of the selected page. -/
def PagedState.store (s : PagedState) (reg val : BitVec 16) : PagedState :=
  { s with regs := Function.update s.regs (s.page, reg) val }

/-- A paged PHY with the identity and the page register of a device. -/
def pagedPhy (pdev : PphyDevice) : Device PagedState where
  read t reg s :=
    if t = mdioTarget pdev.id then
      if reg = pdev.pageReg.setWidth 16 then (s.page, s) else (s.regs (s.page, reg), s)
    else (BitVec.allOnes 16, s)
  write t reg val s :=
    if t = mdioTarget pdev.id then
      if reg = pdev.pageReg.setWidth 16 then s.select val else s.store reg val
    else s

/-- The page and the register of a client's register number. -/
def pphyPage (reg : BitVec 32) : BitVec 8 :=
  (reg >>> 16).setWidth 8

def pphyReg (reg : BitVec 32) : BitVec 16 :=
  (reg &&& 0x1f).setWidth 16

/-! ## Switching pages on any device -/

section Pages

variable {β : Type} (dev : Device β)

/-- The page register as the operand of the driver names it. -/
theorem pageReg_operand (pdev : PphyDevice) :
    ((pdev.pageReg.setWidth 32 : BitVec 32).setWidth 16 : BitVec 16) = pdev.pageReg.setWidth 16 :=
  BitVec.setWidth_setWidth_of_le _ (by omega)

/-- A page as an operand. -/
theorem page_operand (page : BitVec 8) :
    ((page.setWidth 32 : BitVec 32).setWidth 16 : BitVec 16) = page.setWidth 16 :=
  BitVec.setWidth_setWidth_of_le _ (by omega)

/-- Save the page register and select a page, if they differ. -/
def pphyBusEnter (pdev : PphyDevice) (page : BitVec 8) (b : β) : BitVec 16 × β :=
  let t := mdioTarget pdev.id
  let r := dev.read t (pdev.pageReg.setWidth 16) b
  (r.1, if r.1 = page.setWidth 16 then r.2
    else dev.write t (pdev.pageReg.setWidth 16) (page.setWidth 16) r.2)

/-- Select the saved page, if it is another one. -/
def pphyBusLeave (pdev : PphyDevice) (page : BitVec 8) (old : BitVec 16) (b : β) : β :=
  if old = page.setWidth 16 then b
  else dev.write (mdioTarget pdev.id) (pdev.pageReg.setWidth 16) old b

/-- A write of the page register that is passed over when register 1 holds the
page. -/
theorem unlessPage_bus (d : VmData Words β) (pdev : PphyDevice) (page : BitVec 8) {a : BitVec 32}
    {A : Operand} (ha : decodeRi (a.setWidth 18) = some A) :
    Runs dev
      [insn .jeq (regArg 1) (immArg (page.setWidth 32)) (immArg 1),
        insn .write (immArg (pdev.id.setWidth 32)) (immArg (pdev.pageReg.setWidth 32)) a] d
      { d with bus := if d.regs 1 = page.setWidth 16 then d.bus
        else dev.write (mdioTarget pdev.id) (pdev.pageReg.setWidth 16) (A.eval d.regs) d.bus } := by
  by_cases hsame : d.regs 1 = page.setWidth 16
  · rw [if_pos hsame]
    apply Runs.skip_next true (decodeRi_regArg 1) (decodeRi_immArg (page.setWidth 32))
      (v := .write (.imm pdev.id) (.imm (pdev.pageReg.setWidth 16)) A)
    · simp [decodeInsn, insn, ha]
    · simpa [page_operand] using hsame
  · rw [if_neg hsame]
    have hstay : Runs dev
        [insn .jeq (regArg 1) (immArg (page.setWidth 32)) (immArg 1)] d d := by
      apply Runs.keep_next true (decodeRi_regArg 1) (decodeRi_immArg (page.setWidth 32))
        (argI_immArg 1)
      simpa [page_operand] using hsame
    have hwrite := busWrite_runs dev d (pdev.id.setWidth 32) (pdev.pageReg.setWidth 32) ha
    rw [pageReg_operand, setWidth_setWidth32] at hwrite
    exact hstay.append hwrite

/-- Entering a page saves the old one in register 1. -/
theorem pphyBusEnter_runs (d : VmData Words β) (pdev : PphyDevice) (page : BitVec 8) :
    Runs dev (pphyEnter pdev [] page) d
      ({ d with bus := (pphyBusEnter dev pdev page d.bus).2 }.set 1
        (pphyBusEnter dev pdev page d.bus).1) := by
  have hread := busRead_runs dev d (pdev.id.setWidth 32) (pdev.pageReg.setWidth 32) 1
  rw [pageReg_operand, setWidth_setWidth32] at hread
  have hboth := hread.append (unlessPage_bus dev _ pdev page (decodeRi_immArg (page.setWidth 32)))
  simpa [VmData.set, page_operand, pphyBusEnter, pphyEnter, mdioProgPush] using hboth

/-- Leaving a page goes back to the one in register 1. -/
theorem pphyBusLeave_runs (d : VmData Words β) (pdev : PphyDevice) (page : BitVec 8) :
    Runs dev (pphyLeave pdev [] page) d
      { d with bus := pphyBusLeave dev pdev page (d.regs 1) d.bus } :=
  unlessPage_bus dev d pdev page (decodeRi_regArg 1)

end Pages

/-! ## Switching pages -/

variable (pdev : PphyDevice) (page : BitVec 8) (d : VmData Words PagedState)

/-- The state on a page, switched to if it is another one. -/
def PagedState.enter (s : PagedState) (page : BitVec 16) : PagedState :=
  if s.page = page then s else s.select page

@[simp]
theorem PagedState.enter_page (s : PagedState) (page : BitVec 16) :
    (s.enter page).page = page := by
  unfold PagedState.enter
  split_ifs with h
  · exact h
  · rfl

@[simp]
theorem PagedState.enter_regs (s : PagedState) (page : BitVec 16) :
    (s.enter page).regs = s.regs := by
  unfold PagedState.enter
  split_ifs <;> rfl

/-- One read of the device. -/
theorem pagedPhy_read (reg r : BitVec 32) :
    Runs (pagedPhy pdev) [insn .read (immArg (pdev.id.setWidth 32)) (immArg reg) (regArg r)] d
      (d.set (regIndex r) (if reg.setWidth 16 = (pdev.pageReg.setWidth 16 : BitVec 16)
        then d.bus.page else d.bus.regs (d.bus.page, reg.setWidth 16))) := by
  have hread := Runs.read (pagedPhy pdev) d
    (decodeRi_immArg (pdev.id.setWidth 32)) (decodeRi_immArg reg) r
  simp only [Operand.eval_imm, setWidth_setWidth32, pagedPhy, if_true] at hread
  split_ifs at hread ⊢ <;> exact hread

/-- One write of the device. -/
theorem pagedPhy_write {a : BitVec 32} {A : Operand} (ha : decodeRi (a.setWidth 18) = some A)
    (reg : BitVec 32) :
    Runs (pagedPhy pdev) [insn .write (immArg (pdev.id.setWidth 32)) (immArg reg) a] d
      { d with bus := if reg.setWidth 16 = (pdev.pageReg.setWidth 16 : BitVec 16)
        then d.bus.select (A.eval d.regs) else d.bus.store (reg.setWidth 16) (A.eval d.regs) } := by
  have hwrite := Runs.write (pagedPhy pdev) d
    (decodeRi_immArg (pdev.id.setWidth 32)) (decodeRi_immArg reg) ha
  simpa only [Operand.eval_imm, setWidth_setWidth32, pagedPhy, if_true] using hwrite

theorem pphyBusEnter_pagedPhy (b : PagedState) :
    pphyBusEnter (pagedPhy pdev) pdev page b = (b.page, b.enter (page.setWidth 16)) := by
  simp [pphyBusEnter, pagedPhy, PagedState.enter]

theorem pphyBusLeave_pagedPhy (old : BitVec 16) (b : PagedState) :
    pphyBusLeave (pagedPhy pdev) pdev page old b =
      if old = page.setWidth 16 then b else b.select old := by
  simp [pphyBusLeave, pagedPhy]

/-- Entering a page saves the old one in register 1. -/
theorem pphyEnter_runs :
    Runs (pagedPhy pdev) (pphyEnter pdev [] page) d
      ({ d with bus := d.bus.enter (page.setWidth 16) }.set 1 d.bus.page) := by
  have henter := pphyBusEnter_runs (pagedPhy pdev) d pdev page
  rwa [pphyBusEnter_pagedPhy] at henter

/-- Leaving a page goes back to the one in register 1. -/
theorem pphyLeave_runs :
    Runs (pagedPhy pdev) (pphyLeave pdev [] page) d
      { d with bus := if d.regs 1 = page.setWidth 16 then d.bus
        else d.bus.select (d.regs 1) } := by
  have hleave := pphyBusLeave_runs (pagedPhy pdev) d pdev page
  rwa [pphyBusLeave_pagedPhy] at hleave

/-! ## The contract -/

/-- The fragments of the two hooks. -/
theorem pphyRead_nil (reg : BitVec 32) :
    pphyRead pdev [] reg = pphyEnter pdev [] (pphyPage reg) ++
      ([insn .read (immArg (pdev.id.setWidth 32)) (immArg (reg &&& 0x1f)) (regArg 0)] ++
        pphyLeave pdev [] (pphyPage reg)) :=
  rfl

theorem pphyWrite_nil (reg val : BitVec 32) :
    pphyWrite pdev [] reg val = pphyEnter pdev [] (pphyPage reg) ++
      ([insn .write (immArg (pdev.id.setWidth 32)) (immArg (reg &&& 0x1f)) val] ++
        pphyLeave pdev [] (pphyPage reg)) :=
  rfl

/-- The state with the registers `ω`, on the page `old`.  While `old` is the
requested page, the page register has only been written `before`. -/
structure PagedState.Represents (old requested : BitVec 16) (before : List (BitVec 16))
    (s : PagedState) (ω : BitVec 16 × BitVec 16 → BitVec 16) : Prop where
  page : s.page = old
  regs : s.regs = ω
  quiet : old = requested → s.pageWrites = before

/-- Behind a page switch and back the page register is as it was, and if there
was nothing to switch, it has not been written. -/
theorem PagedState.Represents.leave {old requested : BitVec 16} {before : List (BitVec 16)}
    {s : PagedState} {ω : BitVec 16 × BitVec 16 → BitVec 16} (inside : PagedState)
    (ω' : BitVec 16 × BitVec 16 → BitVec 16)
    (h : s.Represents old requested before ω) (hpage : inside.page = requested)
    (hregs : inside.regs = ω') (hwrites : inside.pageWrites = (s.enter requested).pageWrites) :
    PagedState.Represents old requested before
      (if old = requested then inside else inside.select old) ω' := by
  by_cases hsame : old = requested
  · rw [if_pos hsame]
    refine ⟨hpage.trans hsame.symm, hregs, fun heq => ?_⟩
    rw [hwrites, PagedState.enter, if_pos (h.page.trans hsame)]
    exact h.quiet heq
  · rw [if_neg hsame]
    exact ⟨rfl, hregs, fun heq => absurd heq hsame⟩

/-- The driver meets the contract for the registers of one page other than the
page register. -/
def pphyAccess (old : BitVec 16) (requested : BitVec 8) (before : List (BitVec 16)) :
    RegAccess (pagedPhy pdev) (pphyDriver pdev) (BitVec 16 × BitVec 16) where
  valid reg := pphyPage reg = requested ∧ pphyReg reg ≠ pdev.pageReg.setWidth 16
  addr reg := ((pphyPage reg).setWidth 16, pphyReg reg)
  rep s ω := s.Represents old (requested.setWidth 16) before ω
  store o regs := o.value regs
  read_append _ _ := by simp [pphyDriver, pphyRead, pphyEnter, pphyLeave, mdioProgPush]
  write_append _ _ _ := by simp [pphyDriver, pphyWrite, pphyEnter, pphyLeave, mdioProgPush]
  read_length _ := by simp [pphyDriver, pphyRead, pphyEnter, pphyLeave, mdioProgPush]
  write_length _ _ := by simp [pphyDriver, pphyWrite, pphyEnter, pphyLeave, mdioProgPush]
  read_runs := by
    rintro reg d ω ⟨rfl, hreg⟩ hrep
    have henter := pphyEnter_runs pdev (pphyPage reg) d
    have hread := pagedPhy_read pdev
      (({ d with bus := d.bus.enter ((pphyPage reg).setWidth 16) }).set 1 d.bus.page)
      (reg &&& 0x1f) 0
    have hother : ((reg &&& 0x1f).setWidth 16 : BitVec 16) ≠ pdev.pageReg.setWidth 16 := hreg
    rw [if_neg hother] at hread
    have hall := henter.append (hread.append (pphyLeave_runs pdev (pphyPage reg) _))
    rw [← pphyRead_nil] at hall
    have hback := hrep.leave (d.bus.enter ((pphyPage reg).setWidth 16)) ω
      (by simp) (by simp [hrep.regs]) rfl
    refine ⟨_, hall, ⟨rfl, rfl, rfl⟩, ?_, ?_⟩
    · simp [pphyReg, hrep.regs]
    · simpa [hrep.page] using hback
  write_runs := by
    rintro reg d ω ⟨rfl, hreg⟩ hrep o
    have henter := pphyEnter_runs pdev (pphyPage reg) d
    have hwrite := pagedPhy_write pdev
      (({ d with bus := d.bus.enter ((pphyPage reg).setWidth 16) }).set 1 d.bus.page)
      o.decode (reg &&& 0x1f)
    have hother : ((reg &&& 0x1f).setWidth 16 : BitVec 16) ≠ pdev.pageReg.setWidth 16 := hreg
    have hvalue : o.operand.eval (({ d with bus := d.bus.enter ((pphyPage reg).setWidth 16) }).set 1
        d.bus.page).regs = o.value d.regs := by
      cases o <;> rfl
    rw [if_neg hother, hvalue] at hwrite
    have hall := henter.append (hwrite.append (pphyLeave_runs pdev (pphyPage reg) _))
    rw [← pphyWrite_nil] at hall
    have hback := hrep.leave
      ((d.bus.enter ((pphyPage reg).setWidth 16)).store (pphyReg reg) (o.value d.regs))
      (Function.update ω ((pphyPage reg).setWidth 16, pphyReg reg) (o.value d.regs))
      (by simp [PagedState.store]) (by simp [PagedState.store, hrep.regs]) rfl
    refine ⟨_, hall, ⟨rfl, rfl, rfl⟩, ?_⟩
    simpa [hrep.page, pphyReg] using hback

end MdioTools.Device
