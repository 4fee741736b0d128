import MdioTools.Client.Driver

/-!
# The `mvls` driver

A switch with address 0 uses the whole bus: its ports are the device addresses.
A switch with another address is one device, whose registers CMD and DATA give
access to the ports.  A command is started by writing CMD, and it is over when
the busy bit reads 0.

Main results:

- Definition {lit}`mvlsDriver`.
- Definitions {lit}`mvlsLagProg`, {lit}`mvlsCounterProg` and {lit}`mvlsAtuProg`:
  the programs of the sub-commands.
-/

namespace MdioTools.Client

open Kernel

/-- `MVLS_CMD`, `MVLS_DATA`, `MVLS_CMD_BUSY` and `MVLS_CMD_C22`. -/
def mvlsCmd : BitVec 32 := 0
def mvlsData : BitVec 32 := 1
def mvlsCmdBusy : BitVec 32 := 1 <<< 15
def mvlsCmdC22 : BitVec 32 := 1 <<< 12

/-- `MVLS_G1` and `MVLS_G2`. -/
def mvlsG1 : BitVec 32 := 0x1b
def mvlsG2 : BitVec 32 := 0x1c

/-- `MVLS_REG`. -/
def mvlsReg (port reg : BitVec 32) : BitVec 32 :=
  port <<< 16 ||| reg

/-- `mvls_multi_cmd`. -/
def mvlsMultiCmd (port reg : BitVec 8) (write : Bool) : BitVec 16 :=
  (mvlsCmdBusy ||| mvlsCmdC22 ||| (if write then 1 else 2) <<< 10 |||
    port.setWidth 32 <<< 5 ||| reg.setWidth 32).setWidth 16

/-- `mvls_wait_cmd`: read CMD until it is not busy. -/
def mvlsWaitCmd (prog : MdioProg) (id : BitVec 8) : MdioProg :=
  let retry := prog.length
  let prog := mdioProgPush prog (insn .read (immArg (id.setWidth 32)) (immArg mvlsCmd) (regArg 0))
  let prog := mdioProgPush prog (insn .and (regArg 0) (immArg mvlsCmdBusy) (regArg 0))
  mdioProgPush prog (insn .jeq (regArg 0) (immArg mvlsCmdBusy) (gotoArg prog.length retry))

/-- `mvls_read_to`. -/
def mvlsReadTo (id : BitVec 16) (prog : MdioProg) (reg : BitVec 32) (dst : BitVec 8) : MdioProg :=
  let port : BitVec 16 := (reg >>> 16).setWidth 16
  let reg := reg &&& 0xffff
  if id = 0 then
    mdioProgPush prog
      (insn .read (immArg (port.setWidth 32)) (immArg reg) (regArg (dst.setWidth 32)))
  else
    let prog := mdioProgPush prog (insn .write (immArg (id.setWidth 32)) (immArg mvlsCmd)
      (immArg ((mvlsMultiCmd (port.setWidth 8) (reg.setWidth 8) false).setWidth 32)))
    let prog := mvlsWaitCmd prog (id.setWidth 8)
    mdioProgPush prog
      (insn .read (immArg (id.setWidth 32)) (immArg mvlsData) (regArg (dst.setWidth 32)))

/-- `mvls_read`. -/
def mvlsRead (id : BitVec 16) (prog : MdioProg) (reg : BitVec 32) : MdioProg :=
  mvlsReadTo id prog reg 0

/-- `mvls_write`. -/
def mvlsWrite (id : BitVec 16) (prog : MdioProg) (reg val : BitVec 32) : MdioProg :=
  let port : BitVec 16 := (reg >>> 16).setWidth 16
  let reg := reg &&& 0xffff
  if id = 0 then
    mdioProgPush prog (insn .write (immArg (port.setWidth 32)) (immArg reg) val)
  else
    let prog := mdioProgPush prog (insn .write (immArg (id.setWidth 32)) (immArg mvlsData) val)
    let prog := mdioProgPush prog (insn .write (immArg (id.setWidth 32)) (immArg mvlsCmd)
      (immArg ((mvlsMultiCmd (port.setWidth 8) (reg.setWidth 8) true).setWidth 32)))
    mvlsWaitCmd prog (id.setWidth 8)

/-- `mvls_wait`: read a register until its busy bit is 0. -/
def mvlsWait (id : BitVec 16) (prog : MdioProg) (reg : BitVec 32) : MdioProg :=
  let retry := prog.length
  let prog := mvlsReadTo id prog reg 0
  let prog := mdioProgPush prog (insn .and (regArg 0) (immArg mvlsCmdBusy) (regArg 0))
  mdioProgPush prog (insn .jeq (regArg 0) (immArg mvlsCmdBusy) (gotoArg prog.length retry))

/-- `mvls_driver`. -/
def mvlsDriver (id : BitVec 16) : MdioDriver where
  read := mvlsRead id
  write := mvlsWrite id
  dump := none

/-! ## Sub-commands -/

/-- Emit what the last read has left in R0. -/
def pushEmit (prog : MdioProg) : MdioProg :=
  mdioProgPush prog (insn .emit (regArg 0) 0 0)

/-- The program of `mvls_id_exec`. -/
def mvlsIdProg (id : BitVec 16) : MdioProg :=
  pushEmit (mvlsRead id [] (mvlsReg 0x10 0x03))

/-- The program of `mvls_lag_exec`. -/
def mvlsLagProg (id : BitVec 16) : MdioProg :=
  let lags := (List.range 16).foldl (fun prog i =>
    let prog := mvlsWrite id prog (mvlsReg mvlsG2 0x08) (immArg (BitVec.ofNat 32 i <<< 11))
    pushEmit (mvlsRead id prog (mvlsReg mvlsG2 0x08))) []
  (List.range 8).foldl (fun prog i =>
    let prog := mvlsRead id prog (mvlsReg mvlsG2 0x07)
    let prog := mdioProgPush prog (insn .and (regArg 0) (immArg (1 <<< 11)) (regArg 0))
    let prog := mdioProgPush prog
      (insn .or (regArg 0) (immArg (BitVec.ofNat 32 i <<< 12)) (regArg 0))
    let prog := mvlsWrite id prog (mvlsReg mvlsG2 0x07) (regArg 0)
    pushEmit (mvlsRead id prog (mvlsReg mvlsG2 0x07))) lags

/-- `mvls_counter_read_one`. -/
def mvlsCounterReadOne (id : BitVec 16) (prog : MdioProg) (counter : BitVec 8) : MdioProg :=
  let prog := mvlsWrite id prog (mvlsReg mvlsG1 0x1d)
    (immArg (1 <<< 15 ||| 4 <<< 12 ||| counter.setWidth 32))
  let prog := mvlsWait id prog (mvlsReg mvlsG1 0x1d)
  let prog := pushEmit (mvlsRead id prog (mvlsReg mvlsG1 0x1e))
  pushEmit (mvlsRead id prog (mvlsReg mvlsG1 0x1f))

/-- `enum mvls_famliy`. -/
inductive MvlsFamliy
  | unknown | spinnaker | opal | agate | peridot | amethyst
deriving DecidableEq, Repr

/-- `mvls_get_family` for the word of the ID operation, which is 0 when that
has failed. -/
def mvlsGetFamily (id : BitVec 32) : MvlsFamliy :=
  if id >>> 4 = 0x099 then .opal
  else if id >>> 4 = 0x352 then .agate
  else if id >>> 4 = 0x0a1 then .peridot
  else .unknown

/-- `base` and `shift` of `mvls_counter_exec`. -/
def mvlsCounterBase : MvlsFamliy → BitVec 32 × BitVec 32
  | .agate | .peridot | .amethyst => (1 <<< 5, 1 <<< 5)
  | _ => (0, 1)

/-- The program of `mvls_counter_exec` for a switch family. -/
def mvlsCounterProg (id : BitVec 16) (fam : MvlsFamliy) : MdioProg :=
  let base := (mvlsCounterBase fam).1
  let shift := (mvlsCounterBase fam).2
  let prog := mvlsWait id [] (mvlsReg mvlsG1 0x1d)
  let prog := mdioProgPush prog
    (insn .add (immArg (1 <<< 15 ||| 5 <<< 12 ||| base)) (immArg 0) (regArg 1))
  let loop := prog.length
  let prog := mvlsWrite id prog (mvlsReg mvlsG1 0x1d) (regArg 1)
  let prog := mvlsWait id prog (mvlsReg mvlsG1 0x1d)
  let prog := [0x04, 0x06, 0x07, 0x10, 0x13, 0x12].foldl (mvlsCounterReadOne id) prog
  let prog := mdioProgPush prog (insn .add (regArg 1) (immArg shift) (regArg 1))
  mdioProgPush prog
    (insn .jne (regArg 1) (immArg (1 <<< 15 ||| 5 <<< 12 ||| (base + shift * 11)))
      (gotoArg prog.length loop))

/-- The program of `mvls_atu_exec`: limit to a filtering identifier if one is
given, and start the operation `op`. -/
def mvlsAtuProg (id : BitVec 16) (fid : Option (BitVec 32)) (op : BitVec 8) : MdioProg :=
  let prog := match fid with
    | some fid =>
        let prog := mvlsReadTo id [] (mvlsReg mvlsG1 0x01) 0
        let prog := mdioProgPush prog (insn .and (regArg 0) (immArg 0xf0000) (regArg 0))
        let prog := mdioProgPush prog
          (insn .or (regArg 0) (immArg (fid &&& 0xfff)) (regArg 0))
        mvlsWrite id prog (mvlsReg mvlsG1 0x01) (regArg 0)
    | none => []
  let prog := mvlsWait id prog (mvlsReg mvlsG1 0x0b)
  let prog := mvlsReadTo id prog (mvlsReg mvlsG1 0x0b) 0
  let prog := mdioProgPush prog (insn .and (regArg 0) (immArg 0xfff) (regArg 0))
  let prog := mdioProgPush prog
    (insn .or (regArg 0) (immArg (1 <<< 15 ||| op.setWidth 32 <<< 12)) (regArg 0))
  let prog := mvlsWrite id prog (mvlsReg mvlsG1 0x0b) (regArg 0)
  mvlsWait id prog (mvlsReg mvlsG1 0x0b)

end MdioTools.Client
