import MdioTools.Kernel.Insn

/-!
# Programs and drivers of the client

The client builds a program by pushing one instruction after another.  A driver
pushes what it takes to read or write one register of its devices; the common
operations (raw access, benchmark, dump) push the rest around that.

Main results:

- Definition {lit}`MdioDriver`: the hooks of a driver.
- Definitions {lit}`mdioCommonRawProg`, {lit}`mdioCommonBenchProg` and
  {lit}`mdioCommonDumpProg`: the programs of the common operations.
-/

namespace MdioTools.Client

open Kernel

/-- `struct mdio_prog`: the instructions. -/
abbrev MdioProg : Type := List MdioNlInsn

/-- The length of a program is an `int`, and pushing one instruction more is undefined
when it is the largest. -/
def MdioProg.Counted (prog : MdioProg) : Prop :=
  prog.length < 2 ^ 31

/-- `mdio_prog_push`. -/
def mdioProgPush (prog : MdioProg) (i : MdioNlInsn) : MdioProg :=
  prog ++ [i]

/-- `struct reg_range`. -/
structure RegRange where
  start : BitVec 32
  stop : BitVec 32
deriving DecidableEq, Repr

/-- The registers of the loop `for (reg = start; reg <= end; reg++)`, which does
not end where `end` is the largest 32-bit value. -/
def RegRange.regs (range : RegRange) : Option (List (BitVec 32)) :=
  if range.stop = BitVec.allOnes 32 then none
  else some ((List.range (range.stop.toNat + 1 - range.start.toNat)).map
    fun i => range.start + BitVec.ofNat 32 i)

/-- The part of `struct mdio_driver` that builds programs, for one device.  The
hooks of the drivers always succeed. -/
structure MdioDriver where
  read : MdioProg → BitVec 32 → MdioProg
  write : MdioProg → BitVec 32 → BitVec 32 → MdioProg
  dump : Option (MdioProg → RegRange → Option MdioProg)

/-- The program of `mdio_common_raw_exec`: a read, or a write with a value and a
mask, of which 0 stands for none. -/
def mdioCommonRawProg (drv : MdioDriver) (reg : BitVec 32)
    (write : Option (BitVec 32 × BitVec 32)) : MdioProg :=
  match write with
  | some (val, mask) =>
      if mask ≠ 0 then
        let prog := drv.read [] reg
        let prog := mdioProgPush prog (insn .and (regArg 0) (immArg mask) (regArg 0))
        let prog := mdioProgPush prog (insn .or (regArg 0) (immArg val) (regArg 0))
        drv.write prog reg (regArg 0)
      else drv.write [] reg (immArg val)
  | none => mdioProgPush (drv.read [] reg) (insn .emit (regArg 0) 0 0)

/-- The program of `mdio_common_bench_exec`: write a value or read one, and read
the register 1000 times, emitting what is different. -/
def mdioCommonBenchProg (drv : MdioDriver) (reg : BitVec 32) (val : Option (BitVec 32)) :
    MdioProg :=
  let prog := match val with
    | some val =>
        let prog := mdioProgPush [] (insn .add (immArg val) (immArg 0) (regArg 7))
        drv.write prog reg (regArg 7)
    | none =>
        let prog := drv.read [] reg
        mdioProgPush prog (insn .add (regArg 0) (immArg 0) (regArg 7))
  let prog := mdioProgPush prog (insn .add (immArg 0) (immArg 0) (regArg 6))
  let loop := prog.length
  let prog := drv.read prog reg
  let prog := mdioProgPush prog (insn .jeq (regArg 0) (regArg 7) (immArg 1))
  let prog := mdioProgPush prog (insn .emit (regArg 0) 0 0)
  let prog := mdioProgPush prog (insn .add (regArg 6) (immArg 1) (regArg 6))
  mdioProgPush prog (insn .jne (regArg 6) (immArg 1000) (gotoArg prog.length loop))

/-- One round of the unrolled loop of a dump. -/
def dumpOne (drv : MdioDriver) (prog : MdioProg) (reg : BitVec 32) : MdioProg :=
  mdioProgPush (drv.read prog reg) (insn .emit (regArg 0) 0 0)

/-- The program of `mdio_common_dump_exec_one`, if the loop that builds it
ends. -/
def mdioCommonDumpProg (drv : MdioDriver) (range : RegRange) : Option MdioProg :=
  match drv.dump with
  | some dump => dump [] range
  | none => range.regs.map fun regs => regs.foldl (dumpOne drv) []

end MdioTools.Client
