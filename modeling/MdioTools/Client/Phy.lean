import MdioTools.Client.Driver
import MdioTools.Kernel.Eval

/-!
# The `phy`, `mmd` and `mmd-c22` drivers

A PHY register is read or written with one access.  The same driver serves
Clause 45 devices, whose address word has a bit that says so.  The `mmd-c22`
driver reaches them through the Clause 22 registers 13 and 14 instead.

Main results:

- Definitions {lit}`phyDriver` and {lit}`mmdC22Driver`.
- Definitions {lit}`phyStatusProg` and {lit}`mmdStatusProg`: the fixed programs
  of the status operations.
-/

namespace MdioTools.Client

open Kernel

/-! ## Direct access -/

/-- `phy_read`. -/
def phyRead (id : BitVec 16) (prog : MdioProg) (reg : BitVec 32) : MdioProg :=
  mdioProgPush prog (insn .read (immArg (id.setWidth 32)) (immArg reg) (regArg 0))

/-- `phy_write`. -/
def phyWrite (id : BitVec 16) (prog : MdioProg) (reg val : BitVec 32) : MdioProg :=
  mdioProgPush prog (insn .write (immArg (id.setWidth 32)) (immArg reg) val)

/-- `phy_driver`. -/
def phyDriver (id : BitVec 16) : MdioDriver where
  read := phyRead id
  write := phyWrite id
  dump := none

/-- Read a register of a device and emit it. -/
def readEmit (id : BitVec 16) (reg : BitVec 32) : MdioProg :=
  [insn .read (immArg (id.setWidth 32)) (immArg reg) (regArg 0), insn .emit (regArg 0) 0 0]

/-- The program of `phy_exec_status`. -/
def phyStatusProg (id : BitVec 16) : MdioProg :=
  readEmit id 0 ++ readEmit id 1 ++ readEmit id 2 ++ readEmit id 3 ++ readEmit id 15

/-- The program of `mmd_exec_status`: registers 0 to 15 in a loop. -/
def mmdStatusProg (id : BitVec 16) : MdioProg :=
  [insn .add (immArg 0) (immArg 0) (regArg 1),
    insn .read (immArg (id.setWidth 32)) (regArg 1) (regArg 0),
    insn .emit (regArg 0) 0 0,
    insn .add (regArg 1) (immArg 1) (regArg 1),
    insn .jne (regArg 1) (immArg 16) (immArg (-4))]

/-! ## Access through registers 13 and 14 -/

/-- The `prtad` of `mmd_c22_read` and `mmd_c22_write`. -/
def mmdC22Prtad (id : BitVec 16) : BitVec 8 :=
  ((id &&& mdioPhyIdPrtad) >>> 5).setWidth 8

/-- The `devad` of `mmd_c22_read` and `mmd_c22_write`. -/
def mmdC22Devad (id : BitVec 16) : BitVec 8 :=
  (id &&& mdioPhyIdDevad).setWidth 8

/-- The address phase shared by `mmd_c22_read` and `mmd_c22_write`, and the
control word of the data phase. -/
def mmdC22Address (id : BitVec 16) (prog : MdioProg) (reg : BitVec 32) : MdioProg :=
  let prtad := mmdC22Prtad id
  let ctrl : BitVec 16 := (mmdC22Devad id).setWidth 16
  let prog := mdioProgPush prog
    (insn .write (immArg (prtad.setWidth 32)) (immArg 13) (immArg (ctrl.setWidth 32)))
  let prog := mdioProgPush prog
    (insn .write (immArg (prtad.setWidth 32)) (immArg 14) (immArg reg))
  let ctrl := ctrl ||| 1 <<< 14
  mdioProgPush prog
    (insn .write (immArg (prtad.setWidth 32)) (immArg 13) (immArg (ctrl.setWidth 32)))

/-- `mmd_c22_read`. -/
def mmdC22Read (id : BitVec 16) (prog : MdioProg) (reg : BitVec 32) : MdioProg :=
  mdioProgPush (mmdC22Address id prog reg)
    (insn .read (immArg ((mmdC22Prtad id).setWidth 32)) (immArg 14) (regArg 0))

/-- `mmd_c22_write`. -/
def mmdC22Write (id : BitVec 16) (prog : MdioProg) (reg val : BitVec 32) : MdioProg :=
  mdioProgPush (mmdC22Address id prog reg)
    (insn .write (immArg ((mmdC22Prtad id).setWidth 32)) (immArg 14) val)

/-- `mmd_c22_driver`. -/
def mmdC22Driver (id : BitVec 16) : MdioDriver where
  read := mmdC22Read id
  write := mmdC22Write id
  dump := none

end MdioTools.Client
