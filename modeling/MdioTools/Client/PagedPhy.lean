import MdioTools.Client.Phy

/-!
# The `mva` and `mscc` drivers

These PHYs have one register that selects the page of the others.  An access
saves the page register, switches to the requested page if it is another one,
and switches back afterwards.

Main results:

- Definition {lit}`pphyDriver`: the hooks, with a dump that switches once.
- Definition {lit}`mvaStatusProg`: the program of the status operation.
-/

namespace MdioTools.Client

open Kernel

/-- The identity and the page register of `struct pphy_device`. -/
structure PphyDevice where
  id : BitVec 16
  pageReg : BitVec 8

/-- Save the current page in R1 and write the requested one, if they differ. -/
def pphyEnter (pdev : PphyDevice) (prog : MdioProg) (page : BitVec 8) : MdioProg :=
  let id := immArg (pdev.id.setWidth 32)
  let pageReg := immArg (pdev.pageReg.setWidth 32)
  let prog := mdioProgPush prog (insn .read id pageReg (regArg 1))
  let prog := mdioProgPush prog (insn .jeq (regArg 1) (immArg (page.setWidth 32)) (immArg 1))
  mdioProgPush prog (insn .write id pageReg (immArg (page.setWidth 32)))

/-- Restore the old page if we changed it. -/
def pphyLeave (pdev : PphyDevice) (prog : MdioProg) (page : BitVec 8) : MdioProg :=
  let id := immArg (pdev.id.setWidth 32)
  let pageReg := immArg (pdev.pageReg.setWidth 32)
  let prog := mdioProgPush prog (insn .jeq (regArg 1) (immArg (page.setWidth 32)) (immArg 1))
  mdioProgPush prog (insn .write id pageReg (regArg 1))

/-- `pphy_read`. -/
def pphyRead (pdev : PphyDevice) (prog : MdioProg) (reg : BitVec 32) : MdioProg :=
  let page : BitVec 8 := (reg >>> 16).setWidth 8
  let reg := reg &&& 0x1f
  let prog := pphyEnter pdev prog page
  let prog := mdioProgPush prog
    (insn .read (immArg (pdev.id.setWidth 32)) (immArg reg) (regArg 0))
  pphyLeave pdev prog page

/-- `pphy_write`. -/
def pphyWrite (pdev : PphyDevice) (prog : MdioProg) (reg val : BitVec 32) : MdioProg :=
  let page : BitVec 8 := (reg >>> 16).setWidth 8
  let reg := reg &&& 0x1f
  let prog := pphyEnter pdev prog page
  let prog := mdioProgPush prog (insn .write (immArg (pdev.id.setWidth 32)) (immArg reg) val)
  pphyLeave pdev prog page

/-- `pphy_dump`, which also cuts the page off the start of the range. -/
def pphyDump (pdev : PphyDevice) (prog : MdioProg) (range : RegRange) : Option MdioProg :=
  let page : BitVec 8 := (range.start >>> 16).setWidth 8
  let range := { range with start := range.start &&& 0x1f }
  let prog := pphyEnter pdev prog page
  range.regs.map fun regs =>
    pphyLeave pdev (regs.foldl (fun prog reg => prog ++ readEmit pdev.id reg) prog) page

/-- `pphy_driver`. -/
def pphyDriver (pdev : PphyDevice) : MdioDriver where
  read := pphyRead pdev
  write := pphyWrite pdev
  dump := some (pphyDump pdev)

/-- The program of `mva_exec_status`. -/
def mvaStatusProg (pdev : PphyDevice) : MdioProg :=
  readEmit pdev.id 0 ++ readEmit pdev.id 1 ++ readEmit pdev.id 2 ++ readEmit pdev.id 3 ++
    readEmit pdev.id (pdev.pageReg.setWidth 32)

end MdioTools.Client
