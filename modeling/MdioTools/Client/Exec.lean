import MdioTools.Client.Parse
import MdioTools.Client.Xrs

/-!
# The commands of the client

A command reads its arguments, sends programs to the kernel one after the other
and goes on with what comes back.  It is a tree: a node hands a program to
{lit}`mdio_xfer_timeout` and branches over the answers, a leaf is the exit with
the messages printed before it.

Main results:

- Definition {lit}`mdioCommonExec`: the operations that all drivers share.
- Definition {lit}`Object.exec`: the `exec` function of every object.
- Definition {lit}`Command.Sends`: the programs a command can send.
-/

namespace MdioTools.Client

open Kernel Library

/-- What `mdio_xfer` comes back with: its return value and the words its
callback has accepted. -/
structure XferAnswer where
  err : Int
  data : List (BitVec 32)

/-- What a command does. -/
inductive Command
  /-- Leave with a status and error messages. -/
  | exit (status : Int) (msgs : List String)
  /-- Call `mdio_xfer_timeout` and go on with its answer. -/
  | xfer (prog : MdioProg) (timeout : BitVec 16) (next : XferAnswer → Command)
  /-- Repeat a call until it fails. -/
  | xferLoop (prog : MdioProg) (timeout : BitVec 16) (next : XferAnswer → Command)
  /-- The loop that builds the program does not end. -/
  | hang

/-- The timeouts of `mdio_xfer` and of the long operations, in milliseconds. -/
def xferTimeout : BitVec 16 := 1000
def longTimeout : BitVec 16 := 10000

/-- The exit after a failed argument. -/
def Command.fail (e : CmdError) : Command :=
  .exit e.err [e.msg]

/-- The exit after the last answer of an operation. -/
def Command.finish (failed : String) (a : XferAnswer) : Command :=
  if a.err ≠ 0 then .exit 1 ["ERROR: " ++ failed ++ " (" ++ toString a.err ++ ")"] else .exit 0 []

/-- The programs a command hands to `mdio_xfer_timeout`, over all answers. -/
inductive Command.Sends : Command → MdioProg → Prop
  | xfer (prog timeout next) : Sends (.xfer prog timeout next) prog
  | xferNext (prog timeout next a prog') : Sends (next a) prog' →
      Sends (.xfer prog timeout next) prog'
  | xferLoop (prog timeout next) : Sends (.xferLoop prog timeout next) prog
  | xferLoopNext (prog timeout next a prog') : Sends (next a) prog' →
      Sends (.xferLoop prog timeout next) prog'

/-! ## Common operations -/

/-- `struct mdio_device`: the driver's hooks and the register width. -/
structure MdioDevice where
  driver : MdioDriver
  parseReg : ParseReg
  width : Nat

/-- `mdio_common_raw_exec`. -/
def mdioCommonRawExec (dev : MdioDevice) (argv : List CStr) : Command :=
  let send (write : Option (BitVec 32 × BitVec 32)) (reg : BitVec 32) : Command :=
    .xfer (mdioCommonRawProg dev.driver reg write) xferTimeout (.finish "Raw operation failed")
  match dev.parseReg argv.head? false with
  | .error e => .fail e
  | .ok (reg, _) =>
      match argv.tail with
      | [] => send none reg
      | arg :: rest =>
          match mdioParseVal dev.width (some arg) true with
          | .error e => .fail e
          | .ok write =>
              if rest ≠ [] then .fail ⟨einval, "ERROR: Unexpected argument"⟩
              else send (some write) reg

/-- `mdio_common_bench_exec`. -/
def mdioCommonBenchExec (dev : MdioDevice) (argv : List CStr) : Command :=
  let send (val : Option (BitVec 32)) (reg : BitVec 32) : Command :=
    .xfer (mdioCommonBenchProg dev.driver reg val) longTimeout (.finish "Bench operation failed")
  match dev.parseReg argv.head? false with
  | .error e => .fail e
  | .ok (reg, _) =>
      match argv.tail with
      | [] => send none reg
      | arg :: rest =>
          match mdioParseVal dev.width (some arg) false with
          | .error e => .fail e
          | .ok (val, _) =>
              if rest ≠ [] then .fail ⟨einval, "ERROR: Unexpected argument"⟩
              else send (some val) reg

/-- `mdio_common_dump_exec`, one `mdio_common_dump_exec_one` for each argument. -/
def mdioCommonDumpExec (dev : MdioDevice) : List CStr → Command
  | [] => .exit 0 []
  | arg :: rest =>
      match dev.parseReg (some arg) true with
      | .error e => .fail e
      | .ok (start, stop) =>
          match mdioCommonDumpProg dev.driver ⟨start, stop⟩ with
          | none => .hang
          | some prog => .xfer prog longTimeout fun a =>
              if a.err ≠ 0 then .finish "Dump operation failed" a
              else mdioCommonDumpExec dev rest

/-- `mdio_common_exec`. -/
def mdioCommonExec (dev : MdioDevice) (argv : List CStr) : Command :=
  match argv with
  | [] => .exit 1 []
  | op :: rest =>
      if op = "raw".toList then mdioCommonRawExec dev rest
      else if op = "bench".toList then mdioCommonBenchExec dev rest
      else if op = "dump".toList then mdioCommonDumpExec dev rest
      else mdioCommonRawExec dev argv

/-! ## Objects -/

/-- Whether the operation is `status`, which is also the default. -/
def isStatus (argv : List CStr) : Bool :=
  match argv with
  | [] => true
  | op :: _ => op = "status".toList

/-- Send the fixed program of a status operation. -/
def statusExec (prog : MdioProg) : Command :=
  .xfer prog xferTimeout (.finish "Unable to read status")

/-- The start of every `exec` function: read the device address. -/
def withDev (allowC45 : Bool) (argv : List CStr) (body : BitVec 16 → List CStr → Command) :
    Command :=
  match argv with
  | [] => .exit 1 []
  | arg :: rest =>
      match mdioParseDev arg allowC45 with
      | .error e => .exit 1 [e.msg]
      | .ok id => body id rest

/-- The device of `phy_exec`. -/
def phyDevice (id : BitVec 16) : MdioDevice :=
  ⟨phyDriver id, mdioDeviceDfltParseReg 31, 16⟩

/-- `phy_exec`. -/
def phyExec (argv : List CStr) : Command :=
  withDev false argv fun id rest =>
    if isStatus rest then statusExec (phyStatusProg id) else mdioCommonExec (phyDevice id) rest

/-- `mmd_exec_with` a driver. -/
def mmdExecWith (drv : BitVec 16 → MdioDriver) (argv : List CStr) : Command :=
  withDev true argv fun id rest =>
    if id &&& mdioPhyIdC45 = 0 then
      .exit 1 ["ERROR: Expected Clause 45 (PRTAD:DEVAD) address"]
    else if isStatus rest then statusExec (mmdStatusProg id)
    else mdioCommonExec ⟨drv id, mdioDeviceDfltParseReg 0xffff, 16⟩ rest

/-- The page names of `mva_exec`. -/
def mvaPageNames : List PphyPageName :=
  [("copper".toList, 0), ("cu".toList, 0), ("fiber".toList, 1), ("fibre".toList, 1)]

/-- The `struct pphy_device` of `mva_exec` and `mscc_exec`. -/
def mvaPphy (id : BitVec 16) : PphyDevice := ⟨id, 0x16⟩
def msccPphy (id : BitVec 16) : PphyDevice := ⟨id, 0x1f⟩

/-- `mva_exec`. -/
def mvaExec (argv : List CStr) : Command :=
  withDev true argv fun id rest =>
    if isStatus rest then statusExec (mvaStatusProg (mvaPphy id))
    else mdioCommonExec ⟨pphyDriver (mvaPphy id), pphyParseReg 31 mvaPageNames, 16⟩ rest

/-- `mscc_exec`. -/
def msccExec (argv : List CStr) : Command :=
  withDev true argv fun id rest =>
    mdioCommonExec ⟨pphyDriver (msccPphy id), pphyParseReg 31 [], 16⟩ rest

/-- `xrs_exec`. -/
def xrsExec (argv : List CStr) : Command :=
  withDev true argv fun id rest =>
    match rest with
    | [] => .exit 1 []
    | _ => mdioCommonExec ⟨xrsDriver id, mdioDeviceDfltParseReg (BitVec.allOnes 32), 16⟩ rest

/-! ## The LinkStreet sub-commands -/

/-- `mvls_lag_exec`. -/
def mvlsLagExec (id : BitVec 16) (argv : List CStr) : Command :=
  match argv with
  | _ :: _ => .exit 1 ["ERROR: Unknown LAG command"]
  | [] => .xfer (mvlsLagProg id) xferTimeout (.finish "LAG operation failed")

/-- The word of `mvls_id_exec`, and the message of its failure. -/
def mvlsIdAnswer (a : XferAnswer) : BitVec 32 :=
  if a.err ≠ 0 then 0 else a.data.headD 0

/-- `mvls_counter_exec`. -/
def mvlsCounterExec (id : BitVec 16) (argv : List CStr) : Command :=
  let run (again : Bool) : Command :=
    .xfer (mvlsIdProg id) xferTimeout fun a =>
      let prog := mvlsCounterProg id (mvlsGetFamily (mvlsIdAnswer a))
      if again then .xferLoop prog xferTimeout (.finish "COUNTER operation failed")
      else .xfer prog xferTimeout (.finish "COUNTER operation failed")
  match argv with
  | [] => run false
  | arg :: _ =>
      if arg = "repeat".toList then run true
      else .exit 1 ["ERROR: Unexpected counter command"]

/-- The label `read_stat` of `mvls_atu_exec`: the operation and a message.  An
invalid option is reported, and the operation goes on. -/
def atuReadStat (op : BitVec 8) (argv : List CStr) : BitVec 8 × List String :=
  match argv with
  | [] => (op + 2, [])
  | arg :: _ =>
      if arg = "static".toList then (op + 1, [])
      else (op, ["ERROR: Invalid option \"" ++ CStr.text arg ++ "\""])

/-- The label `exec` of `mvls_atu_exec`. -/
def atuSend (id : BitVec 16) (fid : Option (BitVec 32)) (op : BitVec 8 × List String) : Command :=
  .xfer (mvlsAtuProg id fid op.1) xferTimeout fun a =>
    match Command.finish "ATU operation failed" a with
    | .exit status msgs => .exit status (op.2 ++ msgs)
    | c => c

/-- `mvls_atu_exec`. -/
def mvlsAtuExec (id : BitVec 16) (argv : List CStr) : Command :=
  match argv with
  | [] => .exit 1 ["ERROR: Expected ATU command"]
  | arg :: rest =>
      if arg = "flush".toList then
        match rest with
        | [] => atuSend id none (2, [])
        | which :: rest =>
            if which = "all".toList then atuSend id none (atuReadStat 0 rest)
            else
              let fid := strtol which
              if fid < 0 then .exit 1 ["ERROR: Invalid FID \"" ++ CStr.text which ++ "\""]
              else atuSend id (some (BitVec.ofInt 32 fid)) (atuReadStat 4 rest)
      else .exit 1 ["ERROR: Unknown ATU command \"" ++ CStr.text arg ++ "\""]

/-- `mvls_exec`. -/
def mvlsExec (argv : List CStr) : Command :=
  withDev true argv fun id rest =>
    match rest with
    | [] => .exit 1 []
    | op :: args =>
        if op = "atu".toList then mvlsAtuExec id args
        else if op = "counter".toList then mvlsCounterExec id args
        else if op = "lag".toList then mvlsLagExec id args
        else mdioCommonExec ⟨mvlsDriver id, mvlsParseReg, 16⟩ rest

/-! ## The command line -/

/-- The commands of the registry. -/
inductive Object
  | phy | mmd | mmdC22 | mva | mscc | mvls | xrs
deriving DecidableEq, Repr

/-- The name of a command. -/
def Object.name : Object → String
  | .phy => "phy"
  | .mmd => "mmd"
  | .mmdC22 => "mmd-c22"
  | .mva => "mva"
  | .mscc => "mscc"
  | .mvls => "mvls"
  | .xrs => "xrs"

/-- The `exec` function of a command. -/
def Object.exec : Object → List CStr → Command
  | .phy => phyExec
  | .mmd => mmdExecWith phyDriver
  | .mmdC22 => mmdExecWith mmdC22Driver
  | .mva => mvaExec
  | .mscc => msccExec
  | .mvls => mvlsExec
  | .xrs => xrsExec

/-- The choice of `main` behind the bus: the named command, or `mmd` or `phy`
when the name is left out.  Without arguments it is the status of the bus. -/
def mainObject (argv : List CStr) : Option (Object × List CStr) :=
  match argv with
  | [] => none
  | arg :: rest =>
      match [Object.phy, .mmd, .mmdC22, .mva, .mscc, .mvls, .xrs].find?
          fun obj => arg = obj.name.toList with
      | some obj => some (obj, rest)
      | none => some (if ':' ∈ arg then .mmd else .phy, argv)

end MdioTools.Client
