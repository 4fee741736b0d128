import MdioTools.Library.Printf
import MdioTools.Mvls.Env

/-!
# The JSON printer

{lit}`printer_json` prints the same tables for programs.  The text is put
together by hand: a flag tells whether a comma is due, and lists of ports are
printed from bit sets, which the VTU and STU loops fill while they walk.  Beside
the text, the objects printed are recorded.

Main results:

- Definition {lit}`envJsonPorts`: the port overview.
- Definitions {lit}`envJsonAtu`, {lit}`envJsonVtu` and {lit}`envJsonStu`: the
  tables.
-/

namespace MdioTools.Mvls

open Library

/-! ## Names of states -/

/-- `port_state`, `port_fmode`, `port_emode` and `port_8021q`. -/
def portState : List String := ["disabled", "blocking", "learning", "forwarding"]
def portFmode : List String := ["normal", "dsa", "provider", "edsa"]
def portEmode : List String := ["unmodified", "untagged", "tagged", "edsa"]
def port8021q : List String := ["disabled", "fallback", "check", "secure"]

/-- `atu_uc_str` and `atu_mc_str` of this printer. -/
def jsonAtuUcStr : List String :=
  ["unused", "age-1", "age-2", "age-3", "age-4", "age-5", "age-6", "age-7",
    "policy", "policy-po", "nrl", "nrl-po", "mgmt", "mgmt-po", "static", "static-po"]

def jsonAtuMcStr : List String :=
  ["unused", "resvd1", "resvd2", "resvd3", "policy", "nrl", "mgmt", "static",
    "resvd8", "resvd9", "resvda", "resvdb", "policy-po", "nrl-po", "mgmt-po", "static-po"]

/-! ## Pieces of text -/

/-- `"\"key\":value"`. -/
def jsonMember (key : String) (value : CStr) : CStr :=
  ['"'] ++ key.toList ++ ['"', ':'] ++ value

/-- `"\"key\": value"`. -/
def jsonSpaced (key : String) (value : CStr) : CStr :=
  ['"'] ++ key.toList ++ ['"', ':', ' '] ++ value

/-- `"\"%s\""`. -/
def jsonQuoted (s : CStr) : CStr :=
  ['"'] ++ s ++ ['"']

/-- The text printed by a loop with a comma flag: whether nothing has been
printed yet, and the text. -/
structure CommaText where
  first : Bool
  out : CStr

/-- Print an element, behind a comma unless it is the first. -/
def CommaText.print (t : CommaText) (s : CStr) : CommaText :=
  ⟨false, t.out ++ (if t.first then [] else [',']) ++ s⟩

/-- `json_print_portvec`. -/
def jsonPrintPortvec (name : String) (portvec : BitVec 16) : CStr :=
  let ports := (List.range 11).foldl
    (fun t i => if !bit portvec i then t else t.print (dec i)) (⟨true, []⟩ : CommaText)
  [','] ++ jsonMember name (['['] ++ ports.out ++ [']'])

/-- The ports in a set, in order. -/
def portvecPorts (portvec : BitVec 16) : List Nat :=
  (List.range 11).filter (bit portvec ·)

/-- `",\"queue-prio-override\": %u"` and its like, if the override is set. -/
def jsonPrio (key : String) (prio : PrioOverride) : CStr :=
  if prio.set then [','] ++ jsonSpaced key (dec prio.pri) else []

/-- `fputs(",\"key\":true", stdout)` under a condition. -/
def jsonFlag (key : String) (cond : Bool) : CStr :=
  if cond then [','] ++ jsonMember key "true".toList else []

/-! ## Ports -/

/-- The members of the object of a port; of the flags it is said whether they
are printed. -/
structure JsonPort where
  netdev : CStr
  dev : Fin 32
  port : BitVec 32
  state : String
  frameMode : String
  egressMode : String
  qMode : String
  pvid : Nat
  fid : Nat
  lag : Option Nat
  floodUnicast : Bool
  floodMulticast : Bool
  allowUntagged : Bool
  allowTagged : Bool
deriving DecidableEq

/-- The text of the object of a port. -/
def JsonPort.text (p : JsonPort) : CStr :=
  ['{'] ++ jsonMember "netdev" (jsonQuoted p.netdev) ++ [','] ++ jsonMember "dev" (dec p.dev) ++
    [','] ++ jsonMember "port" (decInt p.port.toInt) ++ [','] ++
    jsonMember "state" (jsonQuoted p.state.toList) ++ [','] ++
    jsonMember "frame-mode" (jsonQuoted p.frameMode.toList) ++ [','] ++
    jsonMember "egress-mode" (jsonQuoted p.egressMode.toList) ++ [','] ++
    jsonMember "802.1q" (jsonQuoted p.qMode.toList) ++ [','] ++ jsonMember "pvid" (dec p.pvid) ++
    [','] ++ jsonMember "fid" (dec p.fid) ++
    (match p.lag with | some lag => [','] ++ jsonMember "lag" (dec lag) | none => []) ++
    jsonFlag "flood-unicast" p.floodUnicast ++ jsonFlag "flood-multicast" p.floodMulticast ++
    jsonFlag "allow-untagged" p.allowUntagged ++ jsonFlag "allow-tagged" p.allowTagged ++ ['}']

/-- The object of a port. -/
def jsonPort (dev : Dev) (p : Port) : Option JsonPort := do
  let ctrl ← reg16 p.regs.region 4
  let ctrl2 ← reg16 p.regs.region 8
  let r7 ← reg16 p.regs.region 7
  let fid ← opalPortFid p.regs.region
  let lag ← opalPortLag p.regs.region
  some {
    netdev := p.netdev
    dev := dev.index
    port := p.index
    state := portState.getD (bits ctrl 0 2) ""
    frameMode := portFmode.getD (bits ctrl 8 2) ""
    egressMode := portEmode.getD (bits ctrl 12 2) ""
    qMode := port8021q.getD (bits ctrl2 10 2) ""
    pvid := bits r7 0 12
    fid := fid
    lag := if 0 ≤ lag then some lag.toNat else none
    floodUnicast := bit ctrl 2
    floodMulticast := bit ctrl 3
    allowUntagged := bit ctrl2 8
    allowTagged := bit ctrl2 9 }

/-- The objects of `env_json_ports`. -/
def jsonPortObjs (env : Env) : Option (List JsonPort) := do
  let groups ← env.devs.mapM fun dev => dev.ports.mapM (jsonPort dev)
  some groups.flatten

/-- `env_json_ports`. -/
def envJsonPorts (env : Env) : Option CStr := do
  let objs ← jsonPortObjs env
  let t := objs.foldl (fun t obj => t.print obj.text) (⟨true, []⟩ : CommaText)
  some ("\"ports\":[".toList ++ t.out ++ [']'])

/-! ## ATU -/

/-- The members of the object of an ATU entry. -/
structure JsonAtu where
  dev : Fin 32
  entry : AtuEntry
deriving DecidableEq

/-- The text of the object of an ATU entry. -/
def JsonAtu.text (a : JsonAtu) : CStr :=
  let byte (i : Fin 6) : CStr := padLeft 2 '0' (hex (a.entry.addr i))
  let names := if a.entry.addr 0 % 2 = 1 then jsonAtuMcStr else jsonAtuUcStr
  ['{'] ++ jsonMember "dev" (dec a.dev) ++ [','] ++ jsonMember "fid" (dec a.entry.fid.toNat) ++
    [','] ++ jsonMember "address" (jsonQuoted (byte 0 ++ [':'] ++ byte 1 ++ [':'] ++ byte 2 ++
      [':'] ++ byte 3 ++ [':'] ++ byte 4 ++ [':'] ++ byte 5)) ++ [','] ++
    jsonMember "state" (jsonQuoted (names.getD a.entry.state "").toList) ++
    jsonPrio "queue-prio-override" a.entry.qpri ++ jsonPrio "frame-prio-override" a.entry.fpri ++
    (if a.entry.lag then [','] ++ jsonSpaced "lag" (dec a.entry.portvec.toNat)
      else jsonPrintPortvec "ports" a.entry.portvec) ++ ['}']

/-- The body of the loop of `env_json_atu`. -/
def jsonAtuEntry (dev : Dev) (t : CommaText) (entry : AtuEntry) : CommaText :=
  t.print (JsonAtu.text ⟨dev.index, entry⟩)

/-- The loop of `env_json_atu` over the region of a device. -/
def jsonAtuLoop (dev : Dev) : Region → CommaText → Option CommaText :=
  dumpLoop atuTable dev.chip.family.devAtuParse (jsonAtuEntry dev)

/-- `env_json_atu`. -/
def envJsonAtu (env : Env) : Option CStr := do
  let t ← dumpDevs (fun t _ => t) Dev.atu jsonAtuLoop env.devs ⟨true, []⟩
  some ("\"atu\":[".toList ++ t.out ++ [']'])

/-! ## VTU and STU -/

/-- `vec |= (1 << i)` for the ports `i` with a property. -/
def orPorts (vec : BitVec 16) (p : Fin maxPorts → Bool) : BitVec 16 :=
  (List.finRange maxPorts).foldl (fun vec i => if p i then vec ||| BitVec.twoPow 16 i else vec) vec

/-- The members of the object of a VTU entry. -/
structure JsonVtu where
  dev : Fin 32
  vid : Nat
  fid : Nat
  sid : Nat
  policy : Bool
  qpri : PrioOverride
  fpri : PrioOverride
  unmodified : BitVec 16
  untagged : BitVec 16
  tagged : BitVec 16
deriving DecidableEq

/-- The text of the object of a VTU entry. -/
def JsonVtu.text (v : JsonVtu) : CStr :=
  ['{'] ++ jsonMember "dev" (dec v.dev) ++ [','] ++ jsonMember "vid" (dec v.vid) ++ [','] ++
    jsonMember "fid" (dec v.fid) ++ [','] ++ jsonMember "sid" (dec v.sid) ++
    (if v.policy then [','] ++ jsonSpaced "policy" "true".toList else []) ++
    jsonPrio "queue-prio-override" v.qpri ++ jsonPrio "frame-prio-override" v.fpri ++
    jsonPrintPortvec "unmodified" v.unmodified ++ jsonPrintPortvec "untagged" v.untagged ++
    jsonPrintPortvec "tagged" v.tagged ++ ['}']

/-- The variables of `env_json_vtu`, and the objects printed. -/
structure JsonVtuState where
  unmod : BitVec 16
  untag : BitVec 16
  tag : BitVec 16
  text : CommaText
  objs : List JsonVtu

/-- The body of the loop of `env_json_vtu`. -/
def jsonVtuEntry (dev : Dev) (s : JsonVtuState) (entry : VtuEntry) : JsonVtuState :=
  let unmod := orPorts s.unmod fun i => entry.member i = .unmodified
  let untag := orPorts s.untag fun i => entry.member i = .untagged
  let tag := orPorts s.tag fun i => entry.member i = .tagged
  let obj : JsonVtu := ⟨dev.index, entry.vid, entry.fid, entry.sid, entry.policy, entry.qpri,
    entry.fpri, unmod, untag, tag⟩
  ⟨unmod, untag, tag, s.text.print obj.text, s.objs ++ [obj]⟩

/-- The loop of `env_json_vtu` over the region of a device. -/
def jsonVtuLoop (dev : Dev) : Region → JsonVtuState → Option JsonVtuState :=
  dumpLoop vtuTable dev.chip.family.devVtuParse (jsonVtuEntry dev)

/-- The state of `env_json_vtu` behind its loops. -/
def jsonVtuRun (env : Env) : Option JsonVtuState :=
  dumpDevs (fun s _ => s) Dev.vtu jsonVtuLoop env.devs ⟨0, 0, 0, ⟨true, []⟩, []⟩

/-- `env_json_vtu`. -/
def envJsonVtu (env : Env) : Option CStr := do
  let s ← jsonVtuRun env
  some ("\"vtu\":[".toList ++ s.text.out ++ [']'])

/-- The members of the object of an STU entry. -/
structure JsonStu where
  dev : Fin 32
  sid : Nat
  disabled : BitVec 16
  blocking : BitVec 16
  learning : BitVec 16
  forwarding : BitVec 16
deriving DecidableEq

/-- The text of the object of an STU entry. -/
def JsonStu.text (v : JsonStu) : CStr :=
  ['{'] ++ jsonMember "dev" (dec v.dev) ++ [','] ++ jsonMember "sid" (dec v.sid) ++
    jsonPrintPortvec "disabled" v.disabled ++ jsonPrintPortvec "blocking" v.blocking ++
    jsonPrintPortvec "learning" v.learning ++ jsonPrintPortvec "forwarding" v.forwarding ++ ['}']

/-- The variables of `env_json_stu`, and the objects printed. -/
structure JsonStuState where
  dis : BitVec 16
  blk : BitVec 16
  lrn : BitVec 16
  fwd : BitVec 16
  text : CommaText
  objs : List JsonStu

/-- The body of the loop of `env_json_stu`. -/
def jsonStuEntry (dev : Dev) (s : JsonStuState) (entry : StuEntry) : JsonStuState :=
  let dis := orPorts s.dis fun i => entry.state i = .disabled
  let blk := orPorts s.blk fun i => entry.state i = .blocking
  let lrn := orPorts s.lrn fun i => entry.state i = .learning
  let fwd := orPorts s.fwd fun i => entry.state i = .forwarding
  let obj : JsonStu := ⟨dev.index, entry.sid, dis, blk, lrn, fwd⟩
  ⟨dis, blk, lrn, fwd, s.text.print obj.text, s.objs ++ [obj]⟩

/-- The loop of `env_json_stu` over the region of a device. -/
def jsonStuLoop (dev : Dev) : Region → JsonStuState → Option JsonStuState :=
  dumpLoop stuTable dev.chip.family.devStuParse (jsonStuEntry dev)

/-- The state of `env_json_stu` behind its loops. -/
def jsonStuRun (env : Env) : Option JsonStuState :=
  dumpDevs (fun s _ => s) Dev.stu jsonStuLoop env.devs ⟨0, 0, 0, 0, ⟨true, []⟩, []⟩

/-- `env_json_stu`. -/
def envJsonStu (env : Env) : Option CStr := do
  let s ← jsonStuRun env
  some ("\"stu\":[".toList ++ s.text.out ++ [']'])

end MdioTools.Mvls
