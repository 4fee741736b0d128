import MdioTools.Client.Driver

/-!
# The `xrs` driver

The registers of an XRS switch have 32-bit addresses and are reached through
three registers of one Clause 22 device: two for the address, one for the data.

Main results:

- Definition {lit}`xrsDriver`.
-/

namespace MdioTools.Client

open Kernel

/-- `XRS_IBA0`, `XRS_IBA1` and `XRS_IBD`. -/
def xrsIba0 : BitVec 32 := 0x10
def xrsIba1 : BitVec 32 := 0x11
def xrsIbd : BitVec 32 := 0x14

/-- `xrs_read`. -/
def xrsRead (id : BitVec 16) (prog : MdioProg) (reg : BitVec 32) : MdioProg :=
  let iba0 : BitVec 16 := (reg &&& 0xfffe).setWidth 16
  let iba1 : BitVec 16 := (reg >>> 16).setWidth 16
  let id := immArg (id.setWidth 32)
  let prog := mdioProgPush prog (insn .write id (immArg xrsIba1) (immArg (iba1.setWidth 32)))
  let prog := mdioProgPush prog (insn .write id (immArg xrsIba0) (immArg (iba0.setWidth 32)))
  mdioProgPush prog (insn .read id (immArg xrsIbd) (regArg 0))

/-- `xrs_write`, which makes an immediate of the operand it is given. -/
def xrsWrite (id : BitVec 16) (prog : MdioProg) (reg val : BitVec 32) : MdioProg :=
  let iba0 : BitVec 16 := ((reg &&& 0xfffe) ||| 1).setWidth 16
  let iba1 : BitVec 16 := (reg >>> 16).setWidth 16
  let id := immArg (id.setWidth 32)
  let prog := mdioProgPush prog (insn .write id (immArg xrsIbd) (immArg val))
  let prog := mdioProgPush prog (insn .write id (immArg xrsIba1) (immArg (iba1.setWidth 32)))
  mdioProgPush prog (insn .write id (immArg xrsIba0) (immArg (iba0.setWidth 32)))

/-- `xrs_driver`. -/
def xrsDriver (id : BitVec 16) : MdioDriver where
  read := xrsRead id
  write := xrsWrite id
  dump := none

end MdioTools.Client
