import MdioTools.Library.Printf
import MdioTools.Mvls.Env

/-!
# The text printer

{lit}`printer_show` prints tables for people: a header for each device and a
line for each port or entry.  A function prints behind what it is given; its
result is {lean}`none` when it reads outside of a region.

Main results:

- Definition {lit}`showPortLines`: the lines of the port overview.
- Definitions {lit}`envShowAtu`, {lit}`envShowVtu` and {lit}`envShowStu`: the
  tables.
-/

namespace MdioTools.Mvls

open Library

/-! ## Names of states -/

/-- `prio_c`. -/
def prioC (prio : PrioOverride) : Char :=
  if !prio.set then '-' else Nat.digitChar prio.pri

/-- `atu_uc_str` and `atu_mc_str`. -/
def atuUcStr : List String :=
  ["UNUSED", "age 1", "age 2", "age 3", "age 4", "age 5", "age 6", "age 7",
    "policy", "policy-po", "nrl", "nrl-po", "mgmt", "mgmt-po", "static", "static-po"]

def atuMcStr : List String :=
  ["UNUSED", "resvd1", "resvd2", "resvd3", "policy", "nrl", "mgmt", "static",
    "resvd8", "resvd9", "resvda", "resvdb", "policy-po", "nrl-po", "mgmt-po", "static-po"]

/-- `port_fmode_c`, `port_emode_c`, `port_state_c` and `port_qmode_c`. -/
def portFmodeC : List Char := ['n', 'D', 'P', 'E']
def portEmodeC : List Char := ['=', 'u', 't', 'D']
def portStateC : List Char := ['-', 'B', 'L', 'f']
def portQmodeC : List Char := ['-', 'F', 'C', 's']

/-- `port_link_str`. -/
def portLinkStr (regs : Region) : Option CStr := do
  let stat ← reg16 regs 0
  if !bit stat 11 then some "-".toList
  else
    some (match bits stat 8 2 with
      | 0 => if bit stat 10 then "10".toList else "10h".toList
      | 1 => if bit stat 10 then "100".toList else "100h".toList
      | 2 => if bit stat 10 then "1G".toList else "1Gh".toList
      | _ => if bit stat 10 then "XG".toList else "XGh".toList)

/-- `port_lag_str`. -/
def portLagStr (regs : Region) : Option CStr := do
  let lag ← opalPortLag regs
  if lag < 0 then some ['-'] else some (dec (lag.toNat % 32))

/-! ## Ports -/

/-- The fields of a line of the port overview. -/
structure ShowPort where
  netdev : CStr
  index : BitVec 32
  link : CStr
  fmode : Char
  emode : Char
  floodUc : Char
  floodMc : Char
  state : Char
  lag : CStr
  qmode : Char
  untagged : Char
  tagged : Char
  pvid : Nat
  fid : Nat
  map : CStr
deriving DecidableEq

/-- A line of the port overview: the header of a device or a port. -/
inductive ShowLine
  | dev (index : Fin 32) (id : CStr)
  | port (p : ShowPort)
deriving DecidableEq

/-- The fields of the line of a port. -/
def showPort (p : Port) : Option ShowPort := do
  let ctrl ← reg16 p.regs.region 4
  let ctrl2 ← reg16 p.regs.region 8
  let r7 ← reg16 p.regs.region 7
  let link ← portLinkStr p.regs.region
  let lag ← portLagStr p.regs.region
  let fid ← opalPortFid p.regs.region
  some {
    netdev := p.netdev
    index := p.index
    link := link
    fmode := portFmodeC.getD (bits ctrl 8 2) ' '
    emode := portEmodeC.getD (bits ctrl 12 2) ' '
    floodUc := if bit ctrl 2 then 'u' else '-'
    floodMc := if bit ctrl 3 then 'm' else '-'
    state := portStateC.getD (bits ctrl 0 2) ' '
    lag := lag
    qmode := portQmodeC.getD (bits ctrl2 10 2) ' '
    untagged := if bit ctrl2 8 then '-' else 'u'
    tagged := if bit ctrl2 9 then '-' else 't'
    pvid := bits r7 0 12
    fid := fid
    map := if bit ctrl2 7 then [] else "!map".toList }

/-- `"%-8s  %x  %4s  %c%c  %c%c  %c %2s  %c%c%c  %4u  %4u%s\n"`. -/
def ShowPort.text (p : ShowPort) : CStr :=
  padRight 8 ' ' p.netdev ++ "  ".toList ++ hex p.index.toNat ++ "  ".toList ++
    padLeft 4 ' ' p.link ++ [' ', ' ', p.fmode, p.emode, ' ', ' ', p.floodUc, p.floodMc, ' ', ' ',
      p.state, ' '] ++ padLeft 2 ' ' p.lag ++ [' ', ' ', p.qmode, p.untagged, p.tagged, ' ', ' '] ++
    padLeft 4 ' ' (dec p.pvid) ++ "  ".toList ++ padLeft 4 ' ' (dec p.fid) ++ p.map ++ ['\n']

/-- The header of a device, `"\e[2m\e[7mDEV:%x %-*s\e[0m\n"`. -/
def showDevHeader (width : Nat) (index : Fin 32) (id : CStr) : CStr :=
  "\x1b[2m\x1b[7mDEV:".toList ++ hex index ++ [' '] ++ padRight width ' ' id ++
    "\x1b[0m\n".toList

def ShowLine.text : ShowLine → CStr
  | .dev index id => showDevHeader 42 index id
  | .port p => p.text

/-- The lines of a device. -/
def showDevLines (dev : Dev) : Option (List ShowLine) := do
  let ports ← dev.ports.mapM showPort
  some (.dev dev.index dev.chip.id :: ports.map .port)

/-- The lines of `env_show_ports` below the title. -/
def showPortLines (env : Env) : Option (List ShowLine) := do
  let groups ← env.devs.mapM showDevLines
  some groups.flatten

/-- `env_show_ports`. -/
def envShowPorts (env : Env) : Option CStr := do
  let lines ← showPortLines env
  some ("\x1b[7mNETDEV    P  LINK  MO  FL  S  L  .1Q  PVID   FID\x1b[0m\n".toList ++
    lines.flatMap ShowLine.text)

/-! ## Tables -/

/-- `dev_print_portvec`. -/
def devPrintPortvec (chip : Chip) (portvec : BitVec 16) : CStr :=
  (List.range 11).flatMap fun i =>
    if bit portvec i then [' ', ' '] ++ hex i
    else if chip.nPorts ≤ i then "   ".toList else "  .".toList

/-- The line of an ATU entry. -/
def showAtuEntry (dev : Dev) (out : CStr) (entry : AtuEntry) : CStr :=
  let byte (i : Fin 6) : CStr := padLeft 2 '0' (hex (entry.addr i))
  let names := if entry.addr 0 % 2 = 1 then atuMcStr else atuUcStr
  out ++ byte 0 ++ [':'] ++ byte 1 ++ [':'] ++ byte 2 ++ [':'] ++ byte 3 ++ [':'] ++ byte 4 ++
    [':'] ++ byte 5 ++ "  ".toList ++ padLeft 4 ' ' (dec entry.fid.toNat) ++ "  ".toList ++
    padRight 9 ' ' (names.getD entry.state "").toList ++
    [' ', ' ', prioC entry.qpri, ' ', ' ', prioC entry.fpri] ++
    (if entry.lag then "  lag ".toList ++ hex entry.portvec.toNat
      else devPrintPortvec dev.chip entry.portvec) ++ ['\n']

/-- The cell of a port in the line of a VTU entry. -/
def showVtuCell (chip : Chip) (i : Fin maxPorts) : VtuMember → CStr
  | .unmodified => if chip.nPorts ≤ i then "   ".toList else "  =".toList
  | .untagged => "  u".toList
  | .tagged => "  t".toList
  | .notMember => "  .".toList

/-- The cells of the ports in the line of a VTU entry. -/
def showVtuCells (chip : Chip) (entry : VtuEntry) (i : Fin maxPorts) : CStr :=
  showVtuCell chip i (entry.member i)

/-- The line of a VTU entry. -/
def showVtuEntry (dev : Dev) (out : CStr) (entry : VtuEntry) : CStr :=
  out ++ padLeft 4 ' ' (dec entry.vid) ++ "  ".toList ++ padLeft 4 ' ' (dec entry.fid) ++
    "  ".toList ++ padLeft 3 ' ' (dec entry.sid) ++
    [' ', ' ', if entry.policy then 'y' else '-', ' ', ' ', prioC entry.qpri, ' ', ' ',
      prioC entry.fpri] ++
    (List.finRange maxPorts).flatMap (showVtuCells dev.chip entry) ++ ['\n']

/-- The cell of a port in the line of an STU entry. -/
def showStuCell (chip : Chip) (i : Fin maxPorts) (state : StuState) : CStr :=
  match state with
  | .disabled => if chip.nPorts ≤ i then "   ".toList else "  -".toList
  | _ => [' ', ' ', portStateC.getD state.code ' ']

/-- The cells of the ports in the line of an STU entry. -/
def showStuCells (chip : Chip) (entry : StuEntry) (i : Fin maxPorts) : CStr :=
  showStuCell chip i (entry.state i)

/-- The line of an STU entry. -/
def showStuEntry (dev : Dev) (out : CStr) (entry : StuEntry) : CStr :=
  out ++ padLeft 3 ' ' (dec entry.sid) ++
    (List.finRange maxPorts).flatMap (showStuCells dev.chip entry) ++ ['\n']

/-- The loops of `env_show_atu`, `env_show_vtu` and `env_show_stu` over the
region of a device. -/
def showAtuLoop (dev : Dev) : Region → CStr → Option CStr :=
  dumpLoop atuTable dev.chip.family.devAtuParse (showAtuEntry dev)

def showVtuLoop (dev : Dev) : Region → CStr → Option CStr :=
  dumpLoop vtuTable dev.chip.family.devVtuParse (showVtuEntry dev)

def showStuLoop (dev : Dev) : Region → CStr → Option CStr :=
  dumpLoop stuTable dev.chip.family.devStuParse (showStuEntry dev)

/-- The loop over the devices behind a title, with headers of a width. -/
def showTable (title : String) (width : Nat) (get : Dev → RegionGet)
    (loop : Dev → Region → CStr → Option CStr) (env : Env) : Option CStr :=
  dumpDevs (fun out dev => out ++ showDevHeader width dev.index dev.chip.id) get loop env.devs
    title.toList

/-- `env_show_atu`. -/
def envShowAtu : Env → Option CStr :=
  showTable "\x1b[7mADDRESS             FID  STATE      Q  F  0  1  2  3  4  5  6  7  8  9  a\x1b[0m\n"
    67 Dev.atu showAtuLoop

/-- `env_show_vtu`. -/
def envShowVtu : Env → Option CStr :=
  showTable "\x1b[7m VID   FID  SID  P  Q  F  0  1  2  3  4  5  6  7  8  9  a\x1b[0m\n"
    51 Dev.vtu showVtuLoop

/-- `env_show_stu`. -/
def envShowStu : Env → Option CStr :=
  showTable "\x1b[7mSID  0  1  2  3  4  5  6  7  8  9  a\x1b[0m\n" 30 Dev.stu showStuLoop

end MdioTools.Mvls
