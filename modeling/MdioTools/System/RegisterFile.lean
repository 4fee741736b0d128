import MdioTools.Device.Mmd
import MdioTools.Device.Switch
import MdioTools.System.Session

/-!
# MMDs and switches as register files

The objects that reach their registers in two ways show the same in both.  The
registers of the MMDs are one register file whether each command line goes
through Clause 45 or through the Clause 22 registers 13 and 14, and a switch is
one whether it uses the whole bus or is behind its CMD and DATA registers.

Main results:

- Definition {lit}`RegDevice.ofAccess`: drivers that meet the contract.
- Theorem {lit}`mmdSession_registers`: sessions on the MMDs of a bus.
- Theorem {lit}`mvlsSession_agrees`: sessions on a switch in both addressings.
-/

namespace MdioTools.System

open Library Kernel Client Device

/-- A range never ends with the largest number if the bound is another one. -/
theorem dfltParseReg_stop_ne {max : BitVec 32} (hmax : max ≠ BitVec.allOnes 32) {arg : Option CStr}
    {start stop : BitVec 32} (h : mdioDeviceDfltParseReg max arg true = .ok (start, stop)) :
    stop ≠ BitVec.allOnes 32 := by
  cases arg with
  | none => cases h
  | some arg =>
      have hle : stop ≤ max := (mdioParseRange_le h).2
      rintro rfl
      refine hmax (BitVec.eq_of_toNat_eq ?_)
      have hlt := max.isLt
      rw [BitVec.le_def, BitVec.toNat_allOnes] at hle
      rw [BitVec.toNat_allOnes]
      omega

/-! ## Drivers that meet the contract -/

/-- The program of a dump without a hook. -/
theorem dumpProg_upTo {drv : MdioDriver} (hdump : drv.dump = none) (start : BitVec 32)
    {stop : BitVec 32} (hstop : stop ≠ BitVec.allOnes 32) : mdioCommonDumpProg drv ⟨start, stop⟩ =
      some ((upTo start stop).foldl (dumpOne drv) []) := by
  simp only [mdioCommonDumpProg, hdump, RegRange.regs, if_neg hstop]
  rfl

/-- An operation that names valid registers. -/
def NamesValid (valid : BitVec 32 → Prop) : CommonOp → Prop
  | .raw reg _ | .bench reg _ => valid reg
  | .dump start stop => stop ≠ BitVec.allOnes 32 ∧ ∀ reg ∈ upTo start stop, valid reg

section OfAccess

variable {β ι : Type} [DecidableEq ι] {dev : Device β} (mdev : MdioDevice)
  (acc : RegAccess dev mdev.driver ι) (hfaithful : acc.Faithful)
  (hpushes : DriverPushes mdev.driver) (hdump : mdev.driver.dump = none)
  (hreg : ∀ {arg reg stop}, mdev.parseReg arg false = .ok (reg, stop) → acc.valid reg)
  (hrange : ∀ {arg start stop}, mdev.parseReg arg true = .ok (start, stop) →
    stop ≠ BitVec.allOnes 32 ∧ ∀ reg ∈ upTo start stop, acc.valid reg)

/-- Without a dump hook, a driver that stores what it is given allows all
operations on valid registers, if the registers that are parsed are valid. -/
def RegDevice.ofAccess : RegDevice dev acc.rep where
  mdev := mdev
  regs := .flat acc.addr
  allows := NamesValid acc.valid
  pushes := hpushes
  relocates := acc.relocates
  halts := by
    intro op prog b ω hvalid hprog hlen hrep
    cases op with
    | raw reg write =>
        cases hprog
        exact acc.raw_halts reg hfaithful hvalid hrep write
    | bench reg val =>
        cases hprog
        exact acc.bench_halts reg hfaithful hvalid hrep val
    | dump start stop =>
        obtain rfl := Option.some.inj ((dumpProg_upTo hdump start hvalid.1).symm.trans hprog)
        exact acc.dump_halts (upTo start stop) hvalid.2 hrep hlen
  reads h := ⟨hreg h, hreg h⟩
  dumps h := ⟨(hrange h).1, hrange h, _, dumpProg_upTo hdump _ (hrange h).1⟩

end OfAccess

/-! ## MMDs -/

/-- A register of an MMD is any register number. -/
def mmdRegDevice (c : C45Id) : RegDevice mmdBus MmdState.Represents :=
  .ofAccess ⟨phyDriver c.id, mdioDeviceDfltParseReg 0xffff, 16⟩ (mmdAccess c)
    (fun _ _ => rfl) (phyDriver_pushes c.id) rfl (fun _ => trivial)
    fun h => ⟨dfltParseReg_stop_ne (by decide) h, fun _ _ => trivial⟩

/-- The same registers through registers 13 and 14. -/
def mmdC22RegDevice (c : C45Id) : RegDevice mmdBus MmdState.Represents :=
  .ofAccess ⟨mmdC22Driver c.id, mdioDeviceDfltParseReg 0xffff, 16⟩ (mmdC22Access c)
    (fun _ _ => rfl) (mmdC22Driver_pushes c.id) rfl (fun _ => trivial)
    fun h => ⟨dfltParseReg_stop_ne (by decide) h, fun _ _ => trivial⟩

/-- A command line for an MMD, by either object: the address as it is written, and
a common operation behind it. -/
structure MmdLine where
  indirect : Bool
  addr : CStr
  c : C45Id
  parsed : mdioParseDev addr true = .ok c.id
  args : List CStr
  common : isStatus args = false
  seq : BitVec 32
  clock : Timespec × Timespec
  clocked : Clocked clock

namespace MmdLine

/-- The words behind the bus. -/
def argv (l : MmdLine) : List CStr :=
  (if l.indirect then "mmd-c22" else "mmd").toList :: l.addr :: l.args

/-- The device of the object. -/
def rd (l : MmdLine) : RegDevice mmdBus MmdState.Represents :=
  if l.indirect then mmdC22RegDevice l.c else mmdRegDevice l.c

/-- The id of an MMD has the Clause 45 bit. -/
theorem c45_bit (c : C45Id) : ¬(c.id &&& mdioPhyIdC45) = 0 := by
  intro h
  have hbit := congrArg (fun x : BitVec 16 => x.getLsbD 15) h
  simp [c.id_eq, mdioPhyIdC45Word, mdioPhyIdC45] at hbit

/-- An MMD line may write to any register. -/
theorem mayWrite (l : MmdLine) (argv : List CStr) : l.rd.MayWrite argv := by
  unfold rd
  cases l.indirect <;> exact RegDevice.mayWrite_of (fun _ h => ⟨fun _ => h, fun _ => h⟩) argv

/-- An MMD line is the common operation of its driver. -/
theorem exec (l : MmdLine) : mainExec l.argv = mdioCommonExec l.rd.mdev l.args := by
  have hbody (drv : BitVec 16 → MdioDriver) : mmdExecWith drv (l.addr :: l.args) =
      mdioCommonExec ⟨drv l.c.id, mdioDeviceDfltParseReg 0xffff, 16⟩ l.args := by
    simp only [mmdExecWith, withDev, l.parsed, c45_bit, l.common, if_false, Bool.false_eq_true]
  unfold argv rd
  cases l.indirect
  · exact hbody phyDriver
  · exact hbody mmdC22Driver

/-- The line in a session. -/
def line (l : MmdLine) : SessionLine mmdBus MmdState.Represents where
  rd := l.rd
  argv := l.argv
  args := l.args
  exec := l.exec
  mayWrite := l.mayWrite _
  seq := l.seq
  clock := l.clock
  clocked := l.clocked

end MmdLine

/-- The lines on a register file that is addressed by port, MMD and register. -/
def mmdSpec : List MmdLine → MmdRegs → List Shown × MmdRegs
  | [], ω => ([], ω)
  | l :: ls, ω =>
      let r := commonSpec (mdioDeviceDfltParseReg 0xffff) 16 (.flat (mmdAddr l.c)) l.clock l.args ω
      let rs := mmdSpec ls r.bus
      (r.shown :: rs.1, rs.2)

/-- What an MMD line does to the register file. -/
theorem MmdLine.spec_eq (l : MmdLine) (ω : MmdRegs) : l.line.spec ω =
    commonSpec (mdioDeviceDfltParseReg 0xffff) 16 (.flat (mmdAddr l.c)) l.clock l.args ω := by
  obtain ⟨indirect, addr, c, parsed, args, common, seq, clock, clocked⟩ := l
  cases indirect <;> rfl

/-- A session of MMD lines is that on one register file. -/
theorem sessionSpec_mmd (ls : List MmdLine) (ω : MmdRegs) :
    sessionSpec (ls.map MmdLine.line) ω = mmdSpec ls ω := by
  induction ls generalizing ω with
  | nil => rfl
  | cons l ls ih => rw [List.map_cons, sessionSpec, mmdSpec, MmdLine.spec_eq, ih]

/-- Any sequence of command lines for the MMDs of a bus, each for an MMD of its own
and by either object, shows what one register file shows, and leaves its
registers. -/
theorem mmdSession_registers {sys : MdioSystem MmdState} {name : List Byte}
    (hserves : Serves sys name mmdBus) (ls : List MmdLine)
    (hfits : ∀ l ∈ ls, DumpsFit sys name l.rd.mdev l.rd.regs l.args) (s : MmdState) :
    ∃ n s', (∀ fuel, n ≤ fuel → runSession sys name fuel (ls.map MmdLine.line) s =
      some ((mmdSpec ls s.regs).1, s')) ∧ s'.regs = (mmdSpec ls s.regs).2 := by
  have hfits' : ∀ l ∈ ls.map MmdLine.line, DumpsFit sys name l.rd.mdev l.rd.regs l.args :=
    List.forall_mem_map.mpr hfits
  have hrep : s.Represents s.regs := rfl
  obtain ⟨n, s', hrun, hrep'⟩ := runSession_refines hserves (ls.map MmdLine.line) hfits' hrep
  rw [sessionSpec_mmd] at hrun hrep'
  exact ⟨n, s', hrun, hrep'⟩

/-- MMD 4 of port 9. -/
def exampleMmd : C45Id :=
  ⟨0x8124, 9, 4, by decide, by decide, by decide⟩

/-- A line for register 2 of it, without a benchmark. -/
def exampleMmdLine (indirect : Bool) (args : List CStr) (hargs : isStatus args = false) : MmdLine where
  indirect := indirect
  addr := "9:4".toList
  c := exampleMmd
  parsed := rfl
  args := args
  common := hargs
  seq := 0
  clock := (⟨0, 0⟩, ⟨0, 0⟩)
  clocked := clocked_zero

/-- A register is written by the one object and dumped by the other. -/
theorem mmdSession_registers_both : ∃ n s', ∀ fuel, n ≤ fuel →
    runSession (exampleSystem mmdBus.bus) [0x66] fuel
      ([exampleMmdLine false ["2".toList, "0x1234".toList] rfl,
        exampleMmdLine true ["dump".toList, "1-2".toList] rfl].map MmdLine.line)
      ⟨fun _ => 0, fun _ => 0, fun _ => 0⟩ =
    some ([(0, [], []), (0, "0x0001: 0x0000\n0x0002: 0x1234\n".toList, [])], s') := by
  have hserves : Serves (exampleSystem mmdBus.bus) [0x66] mmdBus :=
    ⟨exampleSystem_works _, by decide, by decide, rfl, fun _ _ => rfl⟩
  have hwrite : DumpsFit (exampleSystem mmdBus.bus) [0x66]
      (exampleMmdLine false ["2".toList, "0x1234".toList] rfl).rd.mdev
      (.flat (mmdAddr exampleMmd)) ["2".toList, "0x1234".toList] := by
    rintro rest ⟨⟩
  have hdump : DumpsFit (exampleSystem mmdBus.bus) [0x66]
      (exampleMmdLine true ["dump".toList, "1-2".toList] rfl).rd.mdev
      (.flat (mmdAddr exampleMmd)) ["dump".toList, "1-2".toList] := by
    rintro rest ⟨⟩ arg harg start stop hrange
    obtain rfl := List.mem_singleton.mp harg
    have hparse : mdioDeviceDfltParseReg 0xffff (some "1-2".toList) true = .ok (1, 2) := rfl
    obtain ⟨rfl, rfl⟩ : (1 : BitVec 32) = start ∧ (2 : BitVec 32) = stop := by
      simpa using hparse.symm.trans hrange
    refine ⟨fun prog hprog => ?_, by decide⟩
    obtain rfl := Option.some.inj ((dumpProg_upTo rfl 1 (by decide)).symm.trans hprog)
    decide
  obtain ⟨n, s', hrun, -⟩ := mmdSession_registers hserves
    [exampleMmdLine false ["2".toList, "0x1234".toList] rfl,
      exampleMmdLine true ["dump".toList, "1-2".toList] rfl]
    (by simpa only [List.forall_mem_cons] using ⟨hwrite, hdump, by simp⟩)
    ⟨fun _ => 0, fun _ => 0, fun _ => 0⟩
  exact ⟨n, s', hrun⟩

/-! ## Switches -/

/-- A register that is accepted is one of a switch. -/
theorem switchReg_of_parse {arg : Option CStr} {reg stop : BitVec 32}
    (h : mvlsParseReg arg false = .ok (reg, stop)) : SwitchReg reg :=
  (mvlsParseReg_ok h).2

/-- No range of switch registers is accepted. -/
theorem not_mvlsRange (arg : Option CStr) {start stop : BitVec 32}
    (h : mvlsParseReg arg true = .ok (start, stop)) : False :=
  Bool.noConfusion (mvlsParseReg_ok h).1

/-- The registers of a switch that uses the whole bus. -/
def directRegDevice : RegDevice directSwitch (fun ω ω' : SwitchRegs => ω = ω') :=
  .ofAccess ⟨mvlsDriver 0, mvlsParseReg, 16⟩ directAccess (fun _ _ => rfl) (mvlsDriver_pushes 0) rfl
    switchReg_of_parse @fun arg _ _ h => (not_mvlsRange arg h).elim

/-- The registers of a switch behind CMD and DATA. -/
def smiRegDevice (id junk : BitVec 16) (hid : 1 ≤ id.toNat ∧ id.toNat ≤ 31) :
    RegDevice (smiSwitch id junk) SmiSwitch.Represents :=
  .ofAccess ⟨mvlsDriver id, mvlsParseReg, 16⟩ (smiAccess id junk hid) (fun _ _ => rfl)
    (mvlsDriver_pushes id) rfl switchReg_of_parse @fun arg _ _ h => (not_mvlsRange arg h).elim

/-- A common operation on a switch: the words behind its address. -/
structure MvlsLine where
  op : CStr
  rest : List CStr
  not_atu : op ≠ "atu".toList
  not_counter : op ≠ "counter".toList
  not_lag : op ≠ "lag".toList
  seq : BitVec 32
  clock : Timespec × Timespec
  clocked : Clocked clock

namespace MvlsLine

theorem exec (l : MvlsLine) {addr : CStr} {id : BitVec 16} (haddr : mdioParseDev addr true = .ok id) :
    mainExec ("mvls".toList :: addr :: l.op :: l.rest) =
      mdioCommonExec ⟨mvlsDriver id, mvlsParseReg, 16⟩ (l.op :: l.rest) := by
  have hbody : mvlsExec (addr :: l.op :: l.rest) =
      mdioCommonExec ⟨mvlsDriver id, mvlsParseReg, 16⟩ (l.op :: l.rest) := by
    simp only [mvlsExec, withDev, haddr, l.not_atu, l.not_counter, l.not_lag, if_false]
  exact hbody

/-- The line for a switch that uses the whole bus. -/
def direct {addr : CStr} (haddr : mdioParseDev addr true = .ok 0) (l : MvlsLine) :
    SessionLine directSwitch (fun ω ω' : SwitchRegs => ω = ω') where
  rd := directRegDevice
  argv := "mvls".toList :: addr :: l.op :: l.rest
  args := l.op :: l.rest
  exec := l.exec haddr
  mayWrite := RegDevice.mayWrite_of (fun _ h => ⟨fun _ => h, fun _ => h⟩) _
  seq := l.seq
  clock := l.clock
  clocked := l.clocked

/-- The line for a switch behind CMD and DATA. -/
def behind {addr : CStr} {id : BitVec 16} (junk : BitVec 16) (hid : 1 ≤ id.toNat ∧ id.toNat ≤ 31)
    (haddr : mdioParseDev addr true = .ok id) (l : MvlsLine) :
    SessionLine (smiSwitch id junk) SmiSwitch.Represents where
  rd := smiRegDevice id junk hid
  argv := "mvls".toList :: addr :: l.op :: l.rest
  args := l.op :: l.rest
  exec := l.exec haddr
  mayWrite := RegDevice.mayWrite_of (fun _ h => ⟨fun _ => h, fun _ => h⟩) _
  seq := l.seq
  clock := l.clock
  clocked := l.clocked

end MvlsLine

/-- The lines on a register file that is addressed by port and register. -/
def mvlsSpec : List MvlsLine → SwitchRegs → List Shown × SwitchRegs
  | [], ω => ([], ω)
  | l :: ls, ω =>
      let r := commonSpec mvlsParseReg 16 (.flat switchAddr) l.clock (l.op :: l.rest) ω
      let rs := mvlsSpec ls r.bus
      (r.shown :: rs.1, rs.2)

/-- A session with a switch that answers at the addresses of its ports. -/
theorem sessionSpec_direct {addr : CStr} (haddr : mdioParseDev addr true = .ok 0)
    (ls : List MvlsLine) (ω : SwitchRegs) :
    sessionSpec (ls.map (MvlsLine.direct haddr)) ω = mvlsSpec ls ω := by
  induction ls generalizing ω with
  | nil => rfl
  | cons l ls ih =>
      rw [List.map_cons, sessionSpec, ih]
      rfl

/-- A session with a switch behind one address is the same. -/
theorem sessionSpec_behind {addr : CStr} {id : BitVec 16} (junk : BitVec 16)
    (hid : 1 ≤ id.toNat ∧ id.toNat ≤ 31) (haddr : mdioParseDev addr true = .ok id)
    (ls : List MvlsLine) (ω : SwitchRegs) :
    sessionSpec (ls.map (MvlsLine.behind junk hid haddr)) ω = mvlsSpec ls ω := by
  induction ls generalizing ω with
  | nil => rfl
  | cons l ls ih =>
      rw [List.map_cons, sessionSpec, ih]
      rfl

/-- Switches have no ranges. -/
theorem mvls_dumpsFit {β : Type} (sys : MdioSystem β) (name : List Byte) (drv : MdioDriver)
    (width : Nat) (regs : RegMap (BitVec 5 × BitVec 5)) (argv : List CStr) :
    DumpsFit sys name ⟨drv, mvlsParseReg, width⟩ regs argv := by
  intro rest _ arg _ start stop hrange
  exact (not_mvlsRange (some arg) hrange).elim

/-- Any sequence of common operations shows the same on a switch that uses the
whole bus and on one behind CMD and DATA, however often each command is polled:
what one register file shows.  Both are left with its registers. -/
theorem mvlsSession_agrees {sys₀ : MdioSystem SwitchRegs} {sys : MdioSystem SmiSwitch}
    {name₀ name : List Byte} {id junk : BitVec 16} (hid : 1 ≤ id.toNat ∧ id.toNat ≤ 31)
    (hserves₀ : Serves sys₀ name₀ directSwitch) (hserves : Serves sys name (smiSwitch id junk))
    {addr₀ addr : CStr} (haddr₀ : mdioParseDev addr₀ true = .ok 0)
    (haddr : mdioParseDev addr true = .ok id) (ls : List MvlsLine) {ω : SwitchRegs} {s : SmiSwitch}
    (hs : s.Represents ω) :
    ∃ n s', (∀ fuel, n ≤ fuel →
      runSession sys₀ name₀ fuel (ls.map (MvlsLine.direct haddr₀)) ω = some (mvlsSpec ls ω) ∧
      runSession sys name fuel (ls.map (MvlsLine.behind junk hid haddr)) s =
        some ((mvlsSpec ls ω).1, s')) ∧ s'.Represents (mvlsSpec ls ω).2 := by
  obtain ⟨n, ω', hdirect, hω'⟩ := runSession_refines hserves₀ (ls.map (MvlsLine.direct haddr₀))
    (List.forall_mem_map.mpr fun _ _ => mvls_dumpsFit _ _ _ _ _ _) (rfl : ω = ω)
  obtain ⟨n', s', hbehind, hs'⟩ := runSession_refines hserves
    (ls.map (MvlsLine.behind junk hid haddr))
    (List.forall_mem_map.mpr fun _ _ => mvls_dumpsFit _ _ _ _ _ _) hs
  rw [sessionSpec_direct] at hdirect hω'
  rw [sessionSpec_behind] at hbehind hs'
  obtain rfl : ω' = (mvlsSpec ls ω).2 := hω'
  exact ⟨max n n', s', fun fuel hle => ⟨hdirect fuel (by omega), hbehind fuel (by omega)⟩, hs'⟩

/-- An operation that starts with register 4 of port 3. -/
def exampleMvlsLine (rest : List CStr) : MvlsLine where
  op := "3:4".toList
  rest := rest
  not_atu := by decide
  not_counter := by decide
  not_lag := by decide
  seq := 0
  clock := (⟨0, 0⟩, ⟨0, 0⟩)
  clocked := clocked_zero

/-- Bits are set under a mask, and the register is read back, on a switch at
address 4 whose commands take 3, 4, 5, … polls. -/
theorem mvlsSession_agrees_masked : ∃ n s', ∀ fuel, n ≤ fuel →
    runSession (exampleSystem (smiSwitch 4 0xdead).bus) [0x66] fuel
      ([exampleMvlsLine ["0x0003/0xfffc".toList], exampleMvlsLine []].map
        (MvlsLine.behind 0xdead (by decide) (show mdioParseDev "4".toList true = .ok 4 from rfl)))
      ⟨fun _ => 0x0070, 0, 0, none, fun k => k + 3⟩ =
    some ([(0, [], []), (0, "0x0073\n".toList, [])], s') := by
  have hserves₀ : Serves (exampleSystem directSwitch.bus) [0x66] directSwitch :=
    ⟨exampleSystem_works _, by decide, by decide, rfl, fun _ _ => rfl⟩
  have hserves : Serves (exampleSystem (smiSwitch 4 0xdead).bus) [0x66] (smiSwitch 4 0xdead) :=
    ⟨exampleSystem_works _, by decide, by decide, rfl, fun _ _ => rfl⟩
  obtain ⟨n, s', hrun, -⟩ := mvlsSession_agrees (by decide) hserves₀ hserves
    (show mdioParseDev "0".toList true = .ok 0 from rfl)
    (show mdioParseDev "4".toList true = .ok 4 from rfl)
    [exampleMvlsLine ["0x0003/0xfffc".toList], exampleMvlsLine []]
    (⟨rfl, rfl⟩ : SmiSwitch.Represents ⟨fun _ => 0x0070, 0, 0, none, fun k => k + 3⟩ fun _ => 0x0070)
  exact ⟨n, s', fun fuel hle => (hrun fuel hle).2⟩

end MdioTools.System
