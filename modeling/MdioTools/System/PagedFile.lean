import MdioTools.Device.PagedAbandon
import MdioTools.System.Linearizable

/-!
# The pages of a PHY as a register file

A register of a paged PHY has as many contents as there are pages.  The client
names the page with the register, and puts the page register back; for all others
on the bus a register is the one on the selected page.  Both work on one register
file: that of all registers on all pages, and the page register.

Main results:

- Definition {lit}`pagedRegDevice`: the client's access to the registers.
- Theorem {lit}`pagedSession_registers`: sessions on a PHY.
- Theorem {lit}`pagedParties_linearizable`: clients and other drivers at once.
-/

namespace MdioTools.System

open Library Kernel Client Device

variable (pdev : PphyDevice)

/-! ## The register file -/

/-- The registers of a paged PHY: the page register, and those on a page, where
the page register shows the page. -/
inductive PagedReg
  | page
  | on (page reg : BitVec 16)
deriving DecidableEq

/-- What they hold. -/
def pagedFile (s : PagedState) : PagedReg → BitVec 16
  | .page => s.page
  | .on page reg => s.value pdev page reg

/-- Where the client has them.  Its dumps are printed without the page. -/
def pagedRegMap : RegMap PagedReg where
  addr reg := .on ((pphyPage reg).setWidth 16) (pphyReg reg)
  first start := start &&& 0x1f
  row start reg := .on ((pphyPage start).setWidth 16) (reg.setWidth 16)

variable {pdev}

/-- States that show the same are the same register file. -/
theorem pagedFile_congr {s s' : PagedState} (h : s.Same s') : pagedFile pdev s' = pagedFile pdev s := by
  funext a
  cases a with
  | page => exact h.1
  | on page reg => simp only [pagedFile, PagedState.value, h.2]

/-- A write of a register that is not the page register. -/
theorem pagedFile_store (s : PagedState) {reg : BitVec 16} (hreg : reg ≠ pdev.pageReg.setWidth 16)
    (val : BitVec 16) : pagedFile pdev (s.store reg val) =
      Function.update (pagedFile pdev s) (.on s.page reg) val := by
  funext a
  cases a with
  | page => rfl
  | on page r =>
      by_cases hsame : page = s.page ∧ r = reg
      · obtain ⟨rfl, rfl⟩ := hsame
        simp [pagedFile, PagedState.value, PagedState.store, hreg]
      · have hpair : (page, r) ≠ (s.page, reg) := fun heq => hsame (Prod.mk.inj heq)
        have hon : PagedReg.on page r ≠ .on s.page reg := fun heq => hsame (PagedReg.on.inj heq)
        simp [pagedFile, PagedState.value, PagedState.store, hpair, hon]

/-- A write of the page register. -/
theorem pagedFile_select (s : PagedState) (page : BitVec 16) :
    pagedFile pdev (s.select page) = Function.update (pagedFile pdev s) .page page := by
  funext a
  cases a <;> simp [pagedFile, PagedState.value, PagedState.select]

/-! ## The client's access -/

section Access

variable {reg : BitVec 32} {b b' : PagedState}

/-- No access to a paged PHY waits. -/
theorem pphy_settles : (KnownDriver.pphy pdev).Settles (pagedPhy pdev) :=
  trivial

/-- A read through the driver. -/
theorem pagedFile_read {v : BitVec 16}
    (h : KnownDriver.BusRead (pagedPhy pdev) (.pphy pdev) reg b v b') :
    v = pagedFile pdev b (pagedRegMap.addr reg) ∧ pagedFile pdev b' = pagedFile pdev b := by
  obtain ⟨rfl, rfl⟩ := h
  rw [pphyBusEnter_pagedPhy, pphyBusLeave_pagedPhy, pagedPhy_read_snd]
  refine ⟨?_, pagedFile_congr (b.same_leave _)⟩
  simp only [pagedPhy, pagedRegMap, pagedFile, PagedState.value, if_true]
  split_ifs <;> simp

/-- A write through the driver. -/
theorem pagedFile_write {val : BitVec 16} (hreg : pphyReg reg ≠ pdev.pageReg.setWidth 16)
    (h : KnownDriver.BusWrite (pagedPhy pdev) (.pphy pdev) reg val b b') :
    pagedFile pdev b' = Function.update (pagedFile pdev b) (pagedRegMap.addr reg) val := by
  have hb' : b' = pphyBusLeave (pagedPhy pdev) pdev (pphyPage reg) _ _ := h
  rw [pphyBusEnter_pagedPhy, pphyBusLeave_pagedPhy, pagedPhy_write_store hreg,
    PagedState.enter] at hb'
  by_cases hsame : b.page = (pphyPage reg).setWidth 16
  · rw [if_pos hsame, if_pos hsame] at hb'
    rw [hb', pagedFile_store b hreg, hsame]
    rfl
  · -- the page register is written twice, the second time with what it held
    rw [if_neg hsame, if_neg hsame] at hb'
    rw [hb', pagedFile_select, pagedFile_store _ hreg, pagedFile_select]
    funext a
    cases a <;> simp [Function.update_apply, pagedFile, pagedRegMap, PagedState.select]

/-- Reads of one register bring the same value each time. -/
theorem pagedFile_reads {n : Nat} {vs : List (BitVec 16)}
    (h : ReadsEach (pagedPhy pdev) (.pphy pdev) b (List.replicate n reg) vs b') :
    vs = List.replicate n (pagedFile pdev b (pagedRegMap.addr reg)) ∧
      pagedFile pdev b' = pagedFile pdev b := by
  induction n generalizing b vs with
  | zero =>
      cases h
      exact ⟨rfl, rfl⟩
  | succ n ih =>
      cases h with
      | cons hread hrest =>
          obtain ⟨rfl, hfile⟩ := pagedFile_read hread
          obtain ⟨hvs, hfile'⟩ := ih hrest
          rw [hfile] at hvs hfile'
          exact ⟨congrArg (_ :: ·) hvs, hfile'⟩

end Access

/-- The registers of all pages other than the page register can be read and
written. -/
def pagedFileAccess (pdev : PphyDevice) :
    RegAccess (pagedPhy pdev) (pphyDriver pdev) PagedReg where
  valid reg := pphyReg reg ≠ pdev.pageReg.setWidth 16
  addr := pagedRegMap.addr
  rep s ω := pagedFile pdev s = ω
  store o regs := o.value regs
  read_append := (KnownDriver.pphy pdev).relocates.read_append
  write_append := (KnownDriver.pphy pdev).relocates.write_append
  read_length := (KnownDriver.pphy pdev).relocates.read_length
  write_length := (KnownDriver.pphy pdev).relocates.write_length
  read_runs := by
    rintro reg d ω - rfl
    obtain ⟨v, b', hread⟩ := KnownDriver.exists_busRead pphy_settles reg d.bus
    obtain ⟨hv, hfile⟩ := pagedFile_read hread
    obtain ⟨d', hruns, hkeeps, hreg0, hbus⟩ := KnownDriver.read_runs hread
    exact ⟨d', hruns, hkeeps, hreg0.trans hv, by rw [hbus, hfile]⟩
  write_runs := by
    rintro reg d ω hreg rfl o
    obtain ⟨b', hwrite⟩ := KnownDriver.exists_busWrite pphy_settles reg (o.value d.regs) d.bus
    obtain ⟨d', hruns, hkeeps, hbus⟩ := KnownDriver.write_runs hwrite
    exact ⟨d', hruns, hkeeps, by rw [hbus, pagedFile_write hreg hwrite]⟩

/-! ## The operations -/

/-- The operation does not write the page register of a page. -/
def SparesPage (pdev : PphyDevice) : CommonOp → Prop
  | .raw reg write => write.isSome → pphyReg reg ≠ pdev.pageReg.setWidth 16
  | .bench reg val => val.isSome → pphyReg reg ≠ pdev.pageReg.setWidth 16
  | .dump _ _ => True

/-- A raw read, also of the page register. -/
theorem pagedRawRead_halts (reg : BitVec 32) (b : PagedState) :
    ∃ b', (mdioNlEval (mdioCommonRawProg (pphyDriver pdev) reg none) (pagedPhy pdev).bus
        quietHost).Halts (.entry [] b) (.returned .progEnd 0
          [(pagedFile pdev b (pagedRegMap.addr reg)).setWidth 32] b') ∧
      pagedFile pdev b' = pagedFile pdev b := by
  obtain ⟨v, b', hread⟩ := KnownDriver.exists_busRead pphy_settles reg b
  obtain ⟨rfl, hfile⟩ := pagedFile_read hread
  obtain ⟨d', hruns, hkeeps, hreg0, rfl⟩ := KnownDriver.read_runs (d := ⟨fun _ => 0, [], b⟩) hread
  have hall := hruns.append (Runs.emit (pagedPhy pdev) d' (decodeRi_regArg 0))
  have hhalts := hall.halts (RegAccess.rawProg_length (KnownDriver.pphy pdev).relocates none)
  have hword : (Operand.reg (regIndex 0)).eval d'.regs = _ := hreg0
  rw [hword, hkeeps.host] at hhalts
  exact ⟨_, hhalts, hfile⟩

/-- A benchmark of reads, also of the page register. -/
theorem pagedBenchRead_halts (reg : BitVec 32) (b : PagedState) :
    ∃ b', (mdioNlEval (mdioCommonBenchProg (pphyDriver pdev) reg none) (pagedPhy pdev).bus
        quietHost).Halts (.entry [] b) (.returned .progEnd 0 [] b') ∧
      pagedFile pdev b' = pagedFile pdev b := by
  obtain ⟨expected, b₁, vs, b₂, hsetup, hreads⟩ := exists_benchRun pphy_settles reg none b
  obtain ⟨rfl, hfile⟩ := pagedFile_read hsetup
  obtain ⟨rfl, hfile'⟩ := pagedFile_reads hreads
  obtain ⟨d', hruns, hhost, rfl⟩ := benchProg_runs hsetup hreads
  have hhalts := hruns.halts (RegAccess.benchProg_length (KnownDriver.pphy pdev).relocates none)
  have hnone : d'.host = [] := by
    rw [hhost, hfile, wrongReads_replicate]
  rw [hnone] at hhalts
  exact ⟨_, hhalts, hfile'.trans hfile⟩

/-- The program of a dump, whose loop ends unless the range ends with the largest
number. -/
theorem pphyDump_prog (pdev : PphyDevice) (start stop : BitVec 32) :
    mdioCommonDumpProg (pphyDriver pdev) ⟨start, stop⟩ =
      if stop = BitVec.allOnes 32 then none
      else some (pphyDumpProg pdev (pphyPage start) (upTo (start &&& 0x1f) stop)) := by
  have hdump : mdioCommonDumpProg (pphyDriver pdev) ⟨start, stop⟩ = _ :=
    pphyDump_eq pdev ⟨start, stop⟩
  by_cases hstop : stop = BitVec.allOnes 32
  · have hregs : (pphyDumpRange ⟨start, stop⟩).regs = none := if_pos hstop
    rw [hdump, hregs, if_pos hstop, Option.map_none]
  · have hregs : (pphyDumpRange ⟨start, stop⟩).regs = some (upTo (start &&& 0x1f) stop) :=
      if_neg hstop
    rw [hdump, hregs, if_neg hstop, Option.map_some, foldl_readEmit, pphyLeave_append]
    rfl

/-- The program of a dump by page and registers. -/
theorem eq_pphyDumpProg {start stop : BitVec 32} {prog : MdioProg}
    (h : mdioCommonDumpProg (pphyDriver pdev) ⟨start, stop⟩ = some prog) :
    prog = pphyDumpProg pdev (pphyPage start) (upTo (start &&& 0x1f) stop) := by
  rw [pphyDump_prog] at h
  by_cases hstop : stop = BitVec.allOnes 32
  · rw [if_pos hstop] at h
    cases h
  · rw [if_neg hstop] at h
    exact (Option.some.inj h).symm

/-- A dump, in which the page register shows the page. -/
theorem pagedDump_halts {start stop : BitVec 32} {prog : MdioProg}
    (hprog : mdioCommonDumpProg (pphyDriver pdev) ⟨start, stop⟩ = some prog)
    (hlen : prog.length ≤ 512) (b : PagedState) :
    ∃ b', (mdioNlEval prog (pagedPhy pdev).bus quietHost).Halts (.entry [] b)
        (.returned .progEnd 0 (CommonOp.words pagedRegMap (pagedFile pdev b) (.dump start stop))
          b') ∧ pagedFile pdev b' = pagedFile pdev b := by
  obtain rfl := eq_pphyDumpProg hprog
  obtain ⟨d', hruns, hhost, hbus⟩ :=
    pphyDumpProg_runs pdev (pphyPage start) (upTo (start &&& 0x1f) stop) ⟨fun _ => 0, [], b⟩
  have hhalts := hruns.halts hlen
  rw [hhost] at hhalts
  refine ⟨_, hhalts, ?_⟩
  rw [hbus]
  exact pagedFile_congr (b.same_leave _)

/-- Every operation that spares the page registers. -/
theorem pagedOp_halts {op : CommonOp} {prog : MdioProg} (hspares : SparesPage pdev op)
    (hprog : op.prog (pphyDriver pdev) = some prog) (hlen : prog.length ≤ 512) (b : PagedState) :
    ∃ b', (mdioNlEval prog (pagedPhy pdev).bus quietHost).Halts (.entry [] b)
        (.returned .progEnd 0 (op.words pagedRegMap (pagedFile pdev b)) b') ∧
      pagedFile pdev b' = op.after pagedRegMap (pagedFile pdev b) := by
  have hfaithful : (pagedFileAccess pdev).Faithful := fun _ _ => rfl
  have hrep : (pagedFileAccess pdev).rep b (pagedFile pdev b) := rfl
  match op with
  | .raw reg none =>
      have heq : mdioCommonRawProg (pphyDriver pdev) reg none = prog := Option.some.inj hprog
      subst heq
      exact pagedRawRead_halts reg b
  | .raw reg (some write) =>
      have heq : mdioCommonRawProg (pphyDriver pdev) reg (some write) = prog :=
        Option.some.inj hprog
      subst heq
      exact (pagedFileAccess pdev).raw_halts reg hfaithful (hspares rfl) hrep (some write)
  | .bench reg none =>
      have heq : mdioCommonBenchProg (pphyDriver pdev) reg none = prog := Option.some.inj hprog
      subst heq
      exact pagedBenchRead_halts reg b
  | .bench reg (some val) =>
      have heq : mdioCommonBenchProg (pphyDriver pdev) reg (some val) = prog :=
        Option.some.inj hprog
      subst heq
      exact (pagedFileAccess pdev).bench_halts reg hfaithful (hspares rfl) hrep (some val)
  | .dump start stop => exact pagedDump_halts hprog hlen b

/-- A range of registers does not end with the largest number. -/
theorem pphyParseReg_stop_ne {pageNames : List PphyPageName} {arg : Option CStr}
    {start stop : BitVec 32} (h : pphyParseReg 31 pageNames arg true = .ok (start, stop)) :
    stop ≠ BitVec.allOnes 32 := by
  obtain ⟨_, _, -, hle, -⟩ := pphyParseReg_ok h
  have hlast : stop ≤ 31 := hle
  rintro rfl
  revert hlast
  decide

/-- The client's access to the registers of a PHY. -/
def pagedRegDevice (pdev : PphyDevice) (pageNames : List PphyPageName) :
    RegDevice (pagedPhy pdev) (fun s ω => pagedFile pdev s = ω) where
  mdev := ⟨pphyDriver pdev, pphyParseReg 31 pageNames, 16⟩
  regs := pagedRegMap
  allows := SparesPage pdev
  pushes := pphyDriver_pushes pdev
  relocates := (KnownDriver.pphy pdev).relocates
  halts := by
    rintro op prog b ω hspares hprog hlen rfl
    exact pagedOp_halts hspares hprog hlen b
  reads _ := ⟨fun h => (nomatch h), fun h => (nomatch h)⟩
  dumps h := ⟨pphyParseReg_stop_ne h, trivial, _,
    (pphyDump_prog pdev _ _).trans (if_neg (pphyParseReg_stop_ne h))⟩

/-! ## Sessions -/

/-- The objects for paged PHYs. -/
inductive PagedObject
  | mva
  | mscc

namespace PagedObject

def object : PagedObject → Object
  | mva => .mva
  | mscc => .mscc

/-- The page register, and the pages that have names. -/
def pphy (id : BitVec 16) : PagedObject → PphyDevice
  | mva => mvaPphy id
  | mscc => msccPphy id

def pageNames : PagedObject → List PphyPageName
  | mva => mvaPageNames
  | mscc => []

/-- The words that ask for the status of the PHY, which only `mva` has. -/
def asksStatus (argv : List CStr) : PagedObject → Bool
  | mva => isStatus argv
  | mscc => false

end PagedObject

/-- A command line for the PHY at an address: the address as it is written, and a
common operation behind it that does not write the page register of a page. -/
structure PagedLine (obj : PagedObject) (id : BitVec 16) where
  addr : CStr
  parsed : mdioParseDev addr true = .ok id
  args : List CStr
  common : obj.asksStatus args = false
  spares : ∀ reg stop,
    pphyParseReg 31 obj.pageNames (writeOperands args).head? false = .ok (reg, stop) →
    (writeOperands args).tail ≠ [] → pphyReg reg ≠ (obj.pphy id).pageReg.setWidth 16
  seq : BitVec 32
  clock : Timespec × Timespec
  clocked : Clocked clock

section Sessions

variable {obj : PagedObject} {id : BitVec 16}

namespace PagedLine

/-- The words behind the bus. -/
def argv (l : PagedLine obj id) : List CStr :=
  obj.object.name.toList :: l.addr :: l.args

/-- A paged line is the common operation of its driver. -/
theorem exec (l : PagedLine obj id) : mainExec l.argv =
    mdioCommonExec ⟨pphyDriver (obj.pphy id), pphyParseReg 31 obj.pageNames, 16⟩ l.args := by
  have hcommon := l.common
  cases obj with
  | mva =>
      have hbody : mvaExec (l.addr :: l.args) = mdioCommonExec
          ⟨pphyDriver (mvaPphy id), pphyParseReg 31 mvaPageNames, 16⟩ l.args := by
        have hstatus : isStatus l.args = false := hcommon
        simp only [mvaExec, withDev, l.parsed, hstatus, if_false, Bool.false_eq_true]
      exact hbody
  | mscc =>
      have hbody : msccExec (l.addr :: l.args) = mdioCommonExec
          ⟨pphyDriver (msccPphy id), pphyParseReg 31 [], 16⟩ l.args := by
        simp only [msccExec, withDev, l.parsed]
      exact hbody

/-- The line in a session. -/
def line (l : PagedLine obj id) :
    SessionLine (pagedPhy (obj.pphy id)) (fun s ω => pagedFile (obj.pphy id) s = ω) where
  rd := pagedRegDevice (obj.pphy id) obj.pageNames
  argv := l.argv
  args := l.args
  exec := l.exec
  mayWrite reg stop hreg hmore :=
    ⟨fun _ _ => l.spares reg stop hreg hmore, fun _ _ => l.spares reg stop hreg hmore⟩
  seq := l.seq
  clock := l.clock
  clocked := l.clocked

end PagedLine

/-- The lines on the register file. -/
def pagedSpec : List (PagedLine obj id) → (PagedReg → BitVec 16) →
    List Shown × (PagedReg → BitVec 16)
  | [], ω => ([], ω)
  | l :: ls, ω =>
      let r := commonSpec (pphyParseReg 31 obj.pageNames) 16 pagedRegMap l.clock l.args ω
      let rs := pagedSpec ls r.bus
      (r.shown :: rs.1, rs.2)

/-- A session of paged lines is that on one register file. -/
theorem sessionSpec_paged (ls : List (PagedLine obj id)) (ω : PagedReg → BitVec 16) :
    sessionSpec (ls.map PagedLine.line) ω = pagedSpec ls ω := by
  induction ls generalizing ω with
  | nil => rfl
  | cons l ls ih =>
      rw [List.map_cons, sessionSpec, ih]
      rfl

/-- No line changes the page register. -/
theorem pagedSpec_page (ls : List (PagedLine obj id)) (ω : PagedReg → BitVec 16) :
    (pagedSpec ls ω).2 .page = ω .page := by
  induction ls generalizing ω with
  | nil => rfl
  | cons l ls ih =>
      rw [pagedSpec, ih]
      exact commonSpec_of_ne (fun reg heq => by cases heq) ω l.clock l.args

/-- A page has 32 registers, so a dump of some of them fits if a message has room
for as many words. -/
theorem paged_dumpsFit {sys : MdioSystem PagedState} {name : List Byte} (pdev : PphyDevice)
    (pageNames : List PphyPageName) (hshort : name.length ≤ miiBusIdSize)
    (hroom : 168 ≤ sys.env.capacity) (argv : List CStr) :
    DumpsFit sys name ⟨pphyDriver pdev, pphyParseReg 31 pageNames, 16⟩ pagedRegMap argv := by
  intro rest _ arg _ start stop hrange
  obtain ⟨page, reg, -, hstop, -⟩ := pphyParseReg_ok hrange
  have hlen : (upTo (start &&& 0x1f) stop).length ≤ 32 := upTo_length_le _ hstop
  refine ⟨fun prog hprog => ?_, ?_⟩
  · obtain rfl := eq_pphyDumpProg hprog
    have hreads : ((upTo (start &&& 0x1f) stop).flatMap (readEmit pdev.id)).length =
        (upTo (start &&& 0x1f) stop).length * 2 := by
      simp [List.length_flatMap, readEmit]
    have halign : align4 (name.length + 1) ≤ name.length + 4 := by
      unfold align4
      omega
    simp only [pphyDumpProg, List.length_append, hreads, pphyEnter, pphyLeave, mdioProgPush,
      List.length_cons, List.length_nil]
    unfold miiBusIdSize at hshort
    unfold bufLen
    omega
  · have hreply : 40 + 4 * (upTo (start &&& 0x1f) stop).length ≤ min sys.env.capacity bufLen := by
      unfold bufLen
      omega
    exact hreply

/-- Any sequence of command lines on a paged PHY, each for registers on pages of its
own, shows what one register file with the registers of all pages shows, and leaves
its registers and the page register as it was. -/
theorem pagedSession_registers {sys : MdioSystem PagedState} {name : List Byte}
    (hserves : Serves sys name (pagedPhy (obj.pphy id))) (hroom : 168 ≤ sys.env.capacity)
    (ls : List (PagedLine obj id)) (s : PagedState) :
    ∃ n s', (∀ fuel, n ≤ fuel → runSession sys name fuel (ls.map PagedLine.line) s =
        some ((pagedSpec ls (pagedFile (obj.pphy id) s)).1, s')) ∧
      pagedFile (obj.pphy id) s' = (pagedSpec ls (pagedFile (obj.pphy id) s)).2 ∧
      s'.page = s.page := by
  have hfits : ∀ l ∈ ls.map PagedLine.line, DumpsFit sys name l.rd.mdev l.rd.regs l.args :=
    List.forall_mem_map.mpr fun _ _ => paged_dumpsFit _ _ hserves.short hroom _
  obtain ⟨n, s', hrun, hrep⟩ := runSession_refines hserves (ls.map PagedLine.line) hfits
    (rfl : pagedFile (obj.pphy id) s = _)
  rw [sessionSpec_paged] at hrun hrep
  refine ⟨n, s', hrun, hrep, ?_⟩
  have hpage := congrFun hrep .page
  rwa [pagedSpec_page] at hpage

end Sessions

/-- An operation on an Alaska PHY at address 1. -/
def exampleMvaLine (args : List CStr) (hargs : isStatus args = false)
    (hspares : ∀ reg stop,
      pphyParseReg 31 mvaPageNames (writeOperands args).head? false = .ok (reg, stop) →
      (writeOperands args).tail ≠ [] → pphyReg reg ≠ 0x16) : PagedLine .mva 1 where
  addr := "1".toList
  parsed := rfl
  args := args
  common := hargs
  spares := hspares
  seq := 0
  clock := (⟨0, 0⟩, ⟨0, 0⟩)
  clocked := clocked_zero

/-- Register 21 of the fiber page is written, and dumped with the page register,
while page 5 is selected. -/
theorem pagedSession_registers_fiber : ∃ n s',
    (∀ fuel, n ≤ fuel → runSession (exampleSystem (pagedPhy (mvaPphy 1)).bus) [0x66] fuel
      ([exampleMvaLine ["fiber:21".toList, "0x1234".toList] rfl
          (fun reg stop h _ => by cases h; decide),
        exampleMvaLine ["dump".toList, "fiber:21-22".toList] rfl
          (fun _ _ _ h => absurd rfl h)].map PagedLine.line) ⟨5, fun _ => 0, []⟩ =
      some ([(0, [], []), (0, "0x0015: 0x1234\n0x0016: 0x0001\n".toList, [])], s')) ∧
    s'.page = 5 := by
  have hserves : Serves (exampleSystem (pagedPhy (mvaPphy 1)).bus) [0x66] (pagedPhy (mvaPphy 1)) :=
    ⟨exampleSystem_works _, by decide, by decide, rfl, fun _ _ => rfl⟩
  obtain ⟨n, s', hrun, -, hpage⟩ := pagedSession_registers hserves (by decide)
    [exampleMvaLine ["fiber:21".toList, "0x1234".toList] rfl
        (fun reg stop h _ => by cases h; decide),
      exampleMvaLine ["dump".toList, "fiber:21-22".toList] rfl (fun _ _ _ h => absurd rfl h)]
    ⟨5, fun _ => 0, []⟩
  exact ⟨n, s', hrun, hpage⟩

/-! ## Clients and other drivers -/

section Parties

variable (pdev)

/-- The register that an access with a number reaches: the one on the selected
page. -/
def selectedReg (a : BusAccess) (ω : PagedReg → BitVec 16) : PagedReg :=
  if a.reg = pdev.pageReg.setWidth 16 then .page else .on (ω .page) a.reg

/-- The registers behind an access of another driver. -/
def accessAfter (a : BusAccess) (ω : PagedReg → BitVec 16) : PagedReg → BitVec 16 :=
  match a.write with
  | none => ω
  | some val =>
      if a.target = mdioTarget pdev.id then Function.update ω (selectedReg pdev a ω) val else ω

/-- Its result. -/
def accessRet (a : BusAccess) (ω : PagedReg → BitVec 16) : Int :=
  match a.write with
  | none => if a.target = mdioTarget pdev.id then (ω (selectedReg pdev a ω)).toNat else 0xffff
  | some _ => 0

/-- The page that is selected behind it. -/
def accessPage (a : BusAccess) (page : BitVec 16) : BitVec 16 :=
  match a.write with
  | none => page
  | some val =>
      if a.target = mdioTarget pdev.id ∧ a.reg = pdev.pageReg.setWidth 16 then val else page

variable {pdev}

/-- The access on the PHY. -/
theorem access_pagedFile (a : BusAccess) (s : PagedState) :
    pagedFile pdev (a.perform (pagedPhy pdev).bus s).2 = accessAfter pdev a (pagedFile pdev s) ∧
      (a.perform (pagedPhy pdev).bus s).1 = accessRet pdev a (pagedFile pdev s) := by
  obtain ⟨target, reg, write⟩ := a
  cases write with
  | none =>
      simp only [BusAccess.perform, Device.bus, pagedPhy, accessAfter, accessRet, selectedReg]
      by_cases htarget : target = mdioTarget pdev.id
      · by_cases hreg : reg = pdev.pageReg.setWidth 16
        · simp only [if_pos htarget, if_pos hreg]
          exact ⟨trivial, rfl⟩
        · simp only [if_pos htarget, if_neg hreg, pagedFile, PagedState.value]
          exact ⟨trivial, trivial⟩
      · simp only [if_neg htarget]
        exact ⟨trivial, rfl⟩
  | some val =>
      simp only [BusAccess.perform, Device.bus, pagedPhy, accessAfter, accessRet, selectedReg]
      by_cases htarget : target = mdioTarget pdev.id
      · by_cases hreg : reg = pdev.pageReg.setWidth 16
        · simp only [if_pos htarget, if_pos hreg]
          exact ⟨pagedFile_select s val, trivial⟩
        · simp only [if_pos htarget, if_neg hreg]
          exact ⟨pagedFile_store s hreg val, trivial⟩
      · simp only [if_neg htarget]
        exact ⟨trivial, trivial⟩

/-- What an access leaves in the page register. -/
theorem accessAfter_page (a : BusAccess) (ω : PagedReg → BitVec 16) :
    accessAfter pdev a ω .page = accessPage pdev a (ω .page) := by
  unfold accessAfter accessPage selectedReg
  cases a.write with
  | none => rfl
  | some val =>
      by_cases htarget : a.target = mdioTarget pdev.id
      · by_cases hreg : a.reg = pdev.pageReg.setWidth 16
        · simp [htarget, hreg]
        · simp [htarget, hreg]
      · simp [htarget]

/-- A party on the bus of a paged PHY: a client with an operation that does not
write the page register of a page, or another driver with an access. -/
inductive PagedParty (pdev : PphyDevice) (name : List Byte)
  | client (o : ClientOp (pagedPhy pdev) (fun s ω => pagedFile pdev s = ω) name)
      (pageNames : List PphyPageName) (rd : o.rd = pagedRegDevice pdev pageNames)
  | access (a : BusAccess)

namespace PagedParty

variable {name : List Byte}

/-- What it does on the register file. -/
def participant (hnul : 0 ∉ name) (hshort : name.length ≤ miiBusIdSize) :
    PagedParty pdev name → Participant (pagedPhy pdev) (fun s ω => pagedFile pdev s = ω) name
  | client o _ _ => o.participant hnul hshort
  | access a => .ofAccess a (accessAfter pdev a)
      (fun ω res => res = .access (accessRet pdev a ω)) (by
        rintro b ω rfl
        obtain ⟨hafter, hret⟩ := access_pagedFile a b
        exact ⟨hafter, congrArg PartyResult.access hret⟩)

/-- The page that is selected behind it: clients put the page register back. -/
def page : PagedParty pdev name → BitVec 16 → BitVec 16
  | client _ _ _, page => page
  | access a, page => accessPage pdev a page

/-- What a party leaves in the page register. -/
theorem after_page (hnul : 0 ∉ name) (hshort : name.length ≤ miiBusIdSize)
    (p : PagedParty pdev name) (ω : PagedReg → BitVec 16) :
    (p.participant hnul hshort).after ω .page = p.page (ω .page) := by
  cases p with
  | access a => exact accessAfter_page a ω
  | client o pageNames hrd =>
      show o.op.after o.rd.regs ω .page = ω .page
      rw [hrd]
      exact CommonOp.after_of_ne ω (fun reg heq => by cases heq) o.op

end PagedParty

variable {ι : Type} {name : List Byte}

/-- The page that is selected behind some parties. -/
def selectedPage (parties : ι → PagedParty pdev name) (order : List ι) (page : BitVec 16) :
    BitVec 16 :=
  order.foldl (fun page i => (parties i).page page) page

/-- What parties leave in the page register, in the order of the lock. -/
theorem afterAll_page (hnul : 0 ∉ name) (hshort : name.length ≤ miiBusIdSize)
    (parties : ι → PagedParty pdev name) (order : List ι) (ω : PagedReg → BitVec 16) :
    afterAll (fun i => (parties i).participant hnul hshort) order ω .page =
      selectedPage parties order (ω .page) := by
  unfold afterAll selectedPage
  induction order generalizing ω with
  | nil => rfl
  | cons i order ih => rw [List.foldl_cons, List.foldl_cons, ih, PagedParty.after_page]

/-- Clients on any pages of a PHY and accesses of other drivers to it, in any order
of their steps: the order in which they take the lock explains the state on the
register file of all pages; and whatever has been served, the page register of this
register file is the one that the other drivers have selected. -/
theorem pagedParties_linearizable [DecidableEq ι] (hnul : 0 ∉ name)
    (hshort : name.length ≤ miiBusIdSize) (parties : ι → PagedParty pdev name) {s : PagedState}
    {schedule : List ι} {c : Conc ι PartyState PagedState} :
    let ps := fun i => (parties i).participant hnul hshort
    let order := Conc.lockOrder (partyCode name (pagedPhy pdev).bus) schedule (allStarted ps s)
    Conc.follow (partyCode name (pagedPhy pdev).bus) schedule (allStarted ps s) = some c →
    Explains ps order (pagedFile pdev s) c ∧
      (∀ front, afterAll ps front (pagedFile pdev s) .page = selectedPage parties front s.page) ∧
      (c.holder = none → c.shared.page = selectedPage parties order s.page) := by
  intro ps order hrun
  have hexplains := (participants_explained ps rfl hrun).1
  refine ⟨hexplains, fun front => afterAll_page hnul hshort parties front _, fun hidle => ?_⟩
  have hpage := congrFun (hexplains.idle hidle) .page
  rw [afterAll_page] at hpage
  exact hpage

end Parties

/-- A client that reads register 2 of the fiber page, and the access of another
driver that reads register 2. -/
def exampleParties : Bool → PagedParty (mvaPphy 1) [0x66]
  | false => .client {
      rd := pagedRegDevice (mvaPphy 1) mvaPageNames
      op := .raw 0x10002 none
      allowed := fun h => nomatch h
      prog := mdioCommonRawProg (pphyDriver (mvaPphy 1)) 0x10002 none
      built := rfl
      seq := 1
      timeout := xferTimeout
      limit := xferTimeout_le
      behind := []
      env := exampleEnv []
      reliable := exampleEnv_reliable
      late := fun _ _ => false
      onTime := fun _ _ => rfl
      fits := by decide } mvaPageNames rfl
  | true => .access ⟨mdioTarget 1, 2, none⟩

/-- Both are there before the client takes the lock; the access is made before the
client has its result. -/
def examplePartiesSchedule : List Bool :=
  List.replicate 11 false ++ List.replicate 3 true ++ [false]

/-- The access finds page 0, which is selected, and not the fiber page. -/
theorem pagedParties_linearizable_fiber :
    let ps := fun i => (exampleParties i).participant (by decide) (by decide)
    let s : PagedState := ⟨0, fun a => a.1 + a.2, []⟩
    ∃ c, Conc.follow (partyCode [0x66] (pagedPhy (mvaPphy 1)).bus) examplePartiesSchedule
      (allStarted ps s) = some c ∧ (c.locals true).result = some (.access 2) ∧
      Explains ps [false, true] (pagedFile (mvaPphy 1) s) c ∧ c.shared.page = 0 := by
  intro ps s
  have hend : (Conc.follow (partyCode [0x66] (pagedPhy (mvaPphy 1)).bus) examplePartiesSchedule
      (allStarted ps s)).map (fun c => (c.holder, (c.locals true).result.isSome)) =
        some (none, true) := by
    decide +kernel
  obtain ⟨c, hc, hseen⟩ := Option.map_eq_some_iff.mp hend
  obtain ⟨hholder, hsome⟩ := Prod.mk.inj hseen
  have horder : Conc.lockOrder (partyCode [0x66] (pagedPhy (mvaPphy 1)).bus)
      examplePartiesSchedule (allStarted ps s) = [false, true] := by decide +kernel
  obtain ⟨hexplains, -, hpage⟩ :=
    pagedParties_linearizable (by decide) (by decide) exampleParties hc
  rw [horder] at hexplains hpage
  obtain ⟨res, hres⟩ := Option.isSome_iff_exists.mp hsome
  obtain ⟨front, back, heq, hanswer⟩ := hexplains.answers true res hres
  have hfront : front = [false] := by
    match front, heq with
    | [_], heq =>
        cases heq
        rfl
    | [], heq => cases heq
    | _ :: _ :: _, heq => simp at heq
  subst hfront
  exact ⟨c, hc, hres.trans (congrArg some hanswer), hexplains, hpage hholder⟩

end MdioTools.System
