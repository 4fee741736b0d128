import MdioTools.Client.Assembly
import MdioTools.Client.Output
import MdioTools.Device.Dump
import MdioTools.Device.RegAccess
import MdioTools.System.Rpc

/-!
# Sessions on a register file

From the outside the tool is a way to the registers of a device.  A command line
is parsed, a program is built, sent, checked, run and answered, and the callback
prints; the next command line starts from the bus that is left.  What comes out
is what a register file would print: the layers in between cannot be told from it.

Main results:

- Definition {lit}`runCommand`: a command with its calls over the socket.
- Definition {lit}`commonSpec`: the common operations on a register file.
- Definition {lit}`RegDevice`: what a device has to do for its registers.
- Theorem {lit}`mdioCommonExec_refines`: a command line does what the register
  file does.
- Theorem {lit}`runSession_refines`: and so does a sequence of command lines.
-/

namespace MdioTools.System

open Library Kernel Client Device

variable {β ι : Type}

/-! ## Commands over the socket -/

/-- The exit of a command: its status, what it has printed, its error messages,
and the bus it leaves. -/
structure ExecRun (β : Type) where
  status : Int
  out : CStr
  msgs : List String
  bus : β

/-- The loop around a call that is left when the call fails. -/
def repeatXfer (call : CStr → β → Option (Int × XferData CStr × β)) :
    Nat → CStr → β → Option (Int × XferData CStr × β)
  | 0, _, _ => none
  | n + 1, out, b => (call out b).bind fun r =>
      if r.1 ≠ 0 then some r else repeatXfer call n r.2.1.arg r.2.2

/-- The answer that a command goes on with. -/
def xferAnswer (r : Int × XferData CStr × β) : XferAnswer :=
  ⟨r.1, r.2.1.calls.flatMap Prod.fst⟩

/-- Run a command whose calls have the given callbacks.  There is no result when
the fuel runs out, and none of a command that hangs. -/
def runCommand (sys : MdioSystem β) (seq : BitVec 32) (name : List Byte) (fuel : Nat) :
    Command → List (OpCallback CStr) → CStr → β → Option (ExecRun β)
  | .exit status msgs, _, out, b => some ⟨status, out, msgs, b⟩
  | .xfer prog timeout next, cb :: cbs, out, b =>
      (mdioXferTimeout sys seq name prog cb out timeout b fuel).bind fun r =>
        runCommand sys seq name fuel (next (xferAnswer r)) cbs r.2.1.arg r.2.2
  | .xferLoop prog timeout next, cb :: cbs, out, b =>
      (repeatXfer (fun out b => mdioXferTimeout sys seq name prog cb out timeout b fuel) fuel out
        b).bind fun r => runCommand sys seq name fuel (next (xferAnswer r)) cbs r.2.1.arg r.2.2
  | _, _, _, _ => none

/-! ## Refinement -/

section Refinement

variable {rep : β → (ι → BitVec 16) → Prop} {sys : MdioSystem β} {name : List Byte}

/-- A command comes to what the register file comes to, with all fuel from some
amount on, and leaves the bus with the registers of the register file. -/
def Refines (rep : β → (ι → BitVec 16) → Prop) (run : Nat → Option (ExecRun β)) (out : CStr)
    (spec : ExecRun (ι → BitVec 16)) : Prop :=
  ∃ n b', (∀ fuel, n ≤ fuel → run fuel = some ⟨spec.status, out ++ spec.out, spec.msgs, b'⟩) ∧
    rep b' spec.bus

/-- A command that only exits leaves the register file as it is. -/
theorem Refines.exit {b : β} {ω : ι → BitVec 16} (hrep : rep b ω) (status : Int)
    (msgs : List String) (seq : BitVec 32) (cbs : List (OpCallback CStr)) (out : CStr) :
    Refines rep (fun fuel => runCommand sys seq name fuel (.exit status msgs) cbs out b) out
      ⟨status, [], msgs, ω⟩ :=
  ⟨0, b, fun _ _ => by simp [runCommand], hrep⟩

/-- A call that is answered at once, and what the command does with the answer. -/
theorem Refines.call {seq : BitVec 32} {prog : MdioProg} {timeout : BitVec 16}
    (next : XferAnswer → Command) {cb : OpCallback CStr} (cbs : List (OpCallback CStr))
    {out more : CStr} {b b₁ : β} {ret : Int} {x : XferData CStr} {spec : ExecRun (ι → BitVec 16)}
    (hcall : ∃ n, ∀ fuel, n ≤ fuel →
      mdioXferTimeout sys seq name prog cb out timeout b fuel = some (ret, x, b₁))
    (hout : x.arg = out ++ more)
    (hnext : Refines rep (fun fuel => runCommand sys seq name fuel
      (next (xferAnswer (ret, x, b₁))) cbs (out ++ more) b₁) (out ++ more) spec) :
    Refines rep (fun fuel => runCommand sys seq name fuel (.xfer prog timeout next) (cb :: cbs)
      out b) out { spec with out := more ++ spec.out } := by
  obtain ⟨n, hn⟩ := hcall
  obtain ⟨n', b', hn', hrep⟩ := hnext
  refine ⟨max n n', b', fun fuel hle => ?_, hrep⟩
  have hfirst := hn fuel (by omega)
  have hrest := hn' fuel (by omega)
  simp only [runCommand, hfirst, Option.bind_some, hout]
  simpa only [List.append_assoc] using hrest

end Refinement

/-! ## Operations on a register file -/

/-- A common operation behind its arguments. -/
inductive CommonOp
  | raw (reg : BitVec 32) (write : Option (BitVec 32 × BitVec 32))
  | bench (reg : BitVec 32) (val : Option (BitVec 32))
  | dump (start stop : BitVec 32)

/-- Where a register file has the registers of a device: the one of a register
number, the number that is printed for the first register of a range, and the
register of a printed number. -/
structure RegMap (ι : Type) where
  addr : BitVec 32 → ι
  first : BitVec 32 → BitVec 32
  row : BitVec 32 → BitVec 32 → ι

/-- The registers of a range are printed under their own numbers. -/
def RegMap.flat (addr : BitVec 32 → ι) : RegMap ι :=
  ⟨addr, id, fun _ => addr⟩

namespace CommonOp

/-- The program that the client builds. -/
def prog (drv : MdioDriver) : CommonOp → Option MdioProg
  | raw reg write => some (mdioCommonRawProg drv reg write)
  | bench reg val => some (mdioCommonBenchProg drv reg val)
  | dump start stop => mdioCommonDumpProg drv ⟨start, stop⟩

/-- It is assembled. -/
theorem assembled {drv : MdioDriver} (h : DriverPushes drv) {op : CommonOp} {prog : MdioProg}
    (hprog : op.prog drv = some prog) : Assembled prog := by
  cases op with
  | raw reg write =>
      cases hprog
      exact mdioCommonRawProg_assembled h reg write
  | bench reg val =>
      cases hprog
      exact mdioCommonBenchProg_assembled h reg val
  | dump start stop => exact mdioCommonDumpProg_assembled h hprog

variable (regs : RegMap ι) (ω : ι → BitVec 16)

/-- The words that the register file gives. -/
def words : CommonOp → Words
  | raw reg write => RegAccess.rawWords ω (regs.addr reg) write
  | bench _ _ => []
  | dump start stop => (upTo (regs.first start) stop).map fun reg =>
      (ω (regs.row start reg)).setWidth 32

/-- The registers behind the operation. -/
def after [DecidableEq ι] : CommonOp → ι → BitVec 16
  | raw reg write => RegAccess.rawRegs ω (regs.addr reg) write
  | bench reg val => RegAccess.benchRegs ω (regs.addr reg) val
  | dump _ _ => ω

/-- A register that no number stands for stays as it is. -/
theorem after_of_ne [DecidableEq ι] {regs : RegMap ι} {a : ι} (ha : ∀ reg, regs.addr reg ≠ a)
    (op : CommonOp) : op.after regs ω a = ω a := by
  match op with
  | raw reg none => rfl
  | raw reg (some _) => exact Function.update_of_ne (ha reg).symm _ ω
  | bench reg none => rfl
  | bench reg (some _) => exact Function.update_of_ne (ha reg).symm _ ω
  | dump _ _ => rfl

end CommonOp

/-! ## The callbacks of the common operations -/

/-- `mdio_common_dump_cb` for a range that does not end with the largest
register number, with what it prints. -/
def dumpPrint (range : RegRange) : OpCallback CStr := fun data err out =>
  if BitVec.ofNat 32 data.length ≠ range.stop - range.start + 1 then (1, out)
  else (err, out ++ (List.zipWith dumpLine (upTo range.start range.stop) data).flatten)

/-- It counts in 32 bits, so that a range that ends right before its start has as
many registers as an empty reply has words. -/
theorem ofNat_upTo_eq_count_iff {start stop : BitVec 32} (hstop : stop ≠ BitVec.allOnes 32) :
    BitVec.ofNat 32 (upTo start stop).length = stop - start + 1 ↔
      start ≤ stop ∨ start = stop + 1 := by
  have hlast : stop.toNat ≠ 2 ^ 32 - 1 := fun heq => hstop (BitVec.eq_of_toNat_eq heq)
  have hstart := start.isLt
  have hlt := stop.isLt
  have hone : (1 : BitVec 32).toNat = 1 := rfl
  rw [upTo_length, ← BitVec.toNat_inj, ← BitVec.toNat_inj (x := start), BitVec.le_def]
  simp only [BitVec.toNat_ofNat, BitVec.toNat_add, BitVec.toNat_sub, hone]
  omega

/-- With one word for each register it prints them all. -/
theorem dumpPrint_regs (start : BitVec 32) {stop : BitVec 32} (hstop : stop ≠ BitVec.allOnes 32)
    (word : BitVec 32 → BitVec 32) (out : CStr) :
    dumpPrint ⟨start, stop⟩ ((upTo start stop).map word) 0 out =
      if start ≤ stop ∨ start = stop + 1 then
        (0, out ++ (upTo start stop).flatMap fun reg => dumpLine reg (word reg))
      else (1, out) := by
  have hcount : BitVec.ofNat 32 (upTo start stop).length = stop - start + 1 ↔
      start ≤ stop ∨ start = stop + 1 := ofNat_upTo_eq_count_iff hstop
  rw [dumpPrint, List.length_map, List.zipWith_map_right, List.zipWith_self]
  by_cases h : start ≤ stop ∨ start = stop + 1
  · rw [if_pos h, if_neg (not_not.mpr (hcount.mpr h))]
    rfl
  · rw [if_neg h, if_pos fun heq => h (hcount.mp heq)]

/-- The callback of a raw operation. -/
def rawCallback (argv : List CStr) : OpCallback CStr :=
  if argv.tail = [] then rawReadPrint else rawWritePrint

/-- The callbacks of a dump, one for each range. -/
def dumpCallbacks (dev : MdioDevice) (regs : RegMap ι) : List CStr → List (OpCallback CStr)
  | [] => []
  | arg :: rest =>
      match dev.parseReg (some arg) true with
      | .error _ => []
      | .ok (start, stop) => dumpPrint ⟨regs.first start, stop⟩ :: dumpCallbacks dev regs rest

/-- The callbacks that the common operations hand to their calls, in order, where
a benchmark reads the clock before its call and in its callback. -/
def commonCallbacks (dev : MdioDevice) (regs : RegMap ι) (clock : Timespec × Timespec)
    (argv : List CStr) : List (OpCallback CStr) :=
  match argv with
  | [] => []
  | op :: rest =>
      if op = "raw".toList then [rawCallback rest]
      else if op = "bench".toList then [benchPrint clock.1 clock.2]
      else if op = "dump".toList then dumpCallbacks dev regs rest
      else [rawCallback argv]

/-! ## A register file -/

variable [DecidableEq ι]

section Spec

variable (parseReg : ParseReg) (width : Nat) (regs : RegMap ι)

/-- A command that leaves the register file as it is. -/
def specFail (e : CmdError) (ω : ι → BitVec 16) : ExecRun (ι → BitVec 16) :=
  ⟨e.err, [], [e.msg], ω⟩

/-- A raw operation on a register file. -/
def rawSpec (argv : List CStr) (ω : ι → BitVec 16) : ExecRun (ι → BitVec 16) :=
  match parseReg argv.head? false with
  | .error e => specFail e ω
  | .ok (reg, _) =>
      match argv.tail with
      | [] => ⟨0, wordLine ((ω (regs.addr reg)).setWidth 32), [], ω⟩
      | arg :: rest =>
          match mdioParseVal width (some arg) true with
          | .error e => specFail e ω
          | .ok write =>
              if rest ≠ [] then specFail ⟨einval, "ERROR: Unexpected argument"⟩ ω
              else ⟨0, [], [], RegAccess.rawRegs ω (regs.addr reg) (some write)⟩

/-- The readings of a clock that does not go back. -/
structure Clocked (clock : Timespec × Timespec) : Prop where
  start : clock.1.Normal
  stop : clock.2.Normal
  le : clock.1.nanos ≤ clock.2.nanos

theorem clocked_zero : Clocked (⟨0, 0⟩, ⟨0, 0⟩) :=
  ⟨⟨by decide, by decide⟩, ⟨by decide, by decide⟩, by decide⟩

/-- What a benchmark without wrong values prints. -/
def benchSpecText (clock : Timespec × Timespec) : CStr :=
  "Performed 1000 reads in ".toList ++
    durationText (clock.2.nanos - clock.1.nanos).toNat

/-- A benchmark without wrong values prints the time alone. -/
theorem benchPrint_quiet {clock : Timespec × Timespec} (hclock : Clocked clock) (out : CStr) :
    benchPrint clock.1 clock.2 [] 0 out = (0, out ++ benchSpecText clock) := by
  have herr : (mdioCommonBenchCb [] 0 []).1 = 0 := rfl
  have htext := elapsedText_eq hclock.start hclock.stop hclock.le
  unfold benchSpecText
  rw [← htext]
  simp only [benchPrint, herr, List.length_nil, ne_eq, not_true_eq_false, if_false, List.append_nil]
  rw [List.append_assoc]

/-- A benchmark of a register file, which always reads what it expects. -/
def benchSpec (clock : Timespec × Timespec) (argv : List CStr) (ω : ι → BitVec 16) :
    ExecRun (ι → BitVec 16) :=
  match parseReg argv.head? false with
  | .error e => specFail e ω
  | .ok (reg, _) =>
      match argv.tail with
      | [] => ⟨0, benchSpecText clock, [], ω⟩
      | arg :: rest =>
          match mdioParseVal width (some arg) false with
          | .error e => specFail e ω
          | .ok (val, _) =>
              if rest ≠ [] then specFail ⟨einval, "ERROR: Unexpected argument"⟩ ω
              else ⟨0, benchSpecText clock, [], RegAccess.benchRegs ω (regs.addr reg) (some val)⟩

/-- A dump of a register file.  A range that ends before it starts is empty if it
ends right before, and else it is refused. -/
def dumpSpec (argv : List CStr) (ω : ι → BitVec 16) : ExecRun (ι → BitVec 16) :=
  match argv with
  | [] => ⟨0, [], [], ω⟩
  | arg :: rest =>
      match parseReg (some arg) true with
      | .error e => specFail e ω
      | .ok (start, stop) =>
          let start' := regs.first start
          if start' ≤ stop ∨ start' = stop + 1 then
            let r := dumpSpec rest ω
            { r with out := (upTo start' stop).flatMap (fun reg =>
                dumpLine reg ((ω (regs.row start reg)).setWidth 32)) ++ r.out }
          else ⟨1, [], ["ERROR: Dump operation failed (-1)"], ω⟩

/-- The common operations on a register file. -/
def commonSpec (clock : Timespec × Timespec) (argv : List CStr) (ω : ι → BitVec 16) :
    ExecRun (ι → BitVec 16) :=
  match argv with
  | [] => ⟨1, [], [], ω⟩
  | op :: rest =>
      if op = "raw".toList then rawSpec parseReg width regs rest ω
      else if op = "bench".toList then benchSpec parseReg width regs clock rest ω
      else if op = "dump".toList then dumpSpec parseReg regs rest ω
      else rawSpec parseReg width regs argv ω

section Frame

variable {parseReg width regs} {a : ι} (ha : ∀ reg, regs.addr reg ≠ a) (ω : ι → BitVec 16)

include ha

/-- A raw operation leaves the other registers. -/
theorem rawSpec_of_ne (argv : List CStr) : (rawSpec parseReg width regs argv ω).bus a = ω a := by
  unfold rawSpec
  cases parseReg argv.head? false with
  | error e => rfl
  | ok range =>
      cases argv.tail with
      | nil => rfl
      | cons arg rest =>
          simp only
          cases mdioParseVal width (some arg) true with
          | error e => rfl
          | ok write =>
              simp only
              split_ifs
              · rfl
              · exact CommonOp.after_of_ne ω ha (.raw range.1 (some write))

/-- A benchmark leaves the other registers. -/
theorem benchSpec_of_ne (clock : Timespec × Timespec) (argv : List CStr) :
    (benchSpec parseReg width regs clock argv ω).bus a = ω a := by
  unfold benchSpec
  cases parseReg argv.head? false with
  | error e => rfl
  | ok range =>
      cases argv.tail with
      | nil => rfl
      | cons arg rest =>
          simp only
          cases mdioParseVal width (some arg) false with
          | error e => rfl
          | ok val =>
              simp only
              split_ifs
              · rfl
              · exact CommonOp.after_of_ne ω ha (.bench range.1 (some val.1))

omit [DecidableEq ι] ha in
/-- A dump leaves all registers. -/
theorem dumpSpec_bus (argv : List CStr) : (dumpSpec parseReg regs argv ω).bus = ω := by
  induction argv with
  | nil => rfl
  | cons arg rest ih =>
      unfold dumpSpec
      cases parseReg (some arg) true with
      | error e => rfl
      | ok range =>
          simp only
          split_ifs
          · exact ih
          · rfl

/-- A common operation leaves all registers but the one it names. -/
theorem commonSpec_of_ne (clock : Timespec × Timespec) (argv : List CStr) :
    (commonSpec parseReg width regs clock argv ω).bus a = ω a := by
  unfold commonSpec
  cases argv with
  | nil => rfl
  | cons op rest =>
      simp only
      split_ifs
      · exact rawSpec_of_ne ha ω rest
      · exact benchSpec_of_ne ha ω clock rest
      · rw [dumpSpec_bus]
      · exact rawSpec_of_ne ha ω (op :: rest)

end Frame

end Spec

/-! ## The system under a session -/

/-- The device is on the bus of the name, and no deadline passes. -/
structure Serves (sys : MdioSystem β) (name : List Byte) (dev : Device β) : Prop where
  works : sys.Works
  noNul : 0 ∉ name
  short : name.length ≤ miiBusIdSize
  find : sys.findBus name = some dev.bus
  onTime : ∀ limit n, sys.late limit n = false

/-- A device of the client gives access to a register file: the operations that
it allows, among them those that only read, do what they do on the registers. -/
structure RegDevice (dev : Device β) (rep : β → (ι → BitVec 16) → Prop) where
  mdev : MdioDevice
  regs : RegMap ι
  allows : CommonOp → Prop
  pushes : DriverPushes mdev.driver
  relocates : Relocates mdev.driver
  halts : ∀ {op prog b ω}, allows op → op.prog mdev.driver = some prog → prog.length ≤ 512 →
    rep b ω → ∃ b', (mdioNlEval prog dev.bus quietHost).Halts (.entry [] b)
        (.returned .progEnd 0 (op.words regs ω) b') ∧ rep b' (op.after regs ω)
  reads : ∀ {arg reg stop}, mdev.parseReg arg false = .ok (reg, stop) →
    allows (.raw reg none) ∧ allows (.bench reg none)
  dumps : ∀ {arg start stop}, mdev.parseReg arg true = .ok (start, stop) →
    stop ≠ BitVec.allOnes 32 ∧ allows (.dump start stop) ∧
      ∃ prog, mdioCommonDumpProg mdev.driver ⟨start, stop⟩ = some prog

/-- The words of a command line that begin with a register to be written, if
there are any. -/
def writeOperands (argv : List CStr) : List CStr :=
  match argv with
  | [] => []
  | op :: rest =>
      if op = "raw".toList ∨ op = "bench".toList then rest
      else if op = "dump".toList then [] else argv

/-- Words that begin with a register, which may be written if a value follows. -/
def RegDevice.MayWrite {dev : Device β} {rep : β → (ι → BitVec 16) → Prop}
    (rd : RegDevice dev rep) (argv : List CStr) : Prop :=
  ∀ reg stop, rd.mdev.parseReg argv.head? false = .ok (reg, stop) → argv.tail ≠ [] →
    (∀ write, rd.allows (.raw reg (some write))) ∧ ∀ val, rd.allows (.bench reg (some val))

/-- All registers may be written where those that are read may be. -/
theorem RegDevice.mayWrite_of {dev : Device β} {rep : β → (ι → BitVec 16) → Prop}
    {rd : RegDevice dev rep} (h : ∀ reg, rd.allows (.raw reg none) →
      (∀ write, rd.allows (.raw reg (some write))) ∧ ∀ val, rd.allows (.bench reg (some val)))
    (argv : List CStr) : rd.MayWrite argv :=
  fun _ _ hreg _ => h _ (rd.reads hreg).1

/-- A dump of a range fits the buffer of the client, and its reply one message. -/
structure RangeFits (sys : MdioSystem β) (name : List Byte) (drv : MdioDriver) (regs : RegMap ι)
    (start stop : BitVec 32) : Prop where
  request : ∀ prog, mdioCommonDumpProg drv ⟨start, stop⟩ = some prog →
    36 + align4 (name.length + 1) + 8 * prog.length ≤ bufLen
  reply : 40 + 4 * (upTo (regs.first start) stop).length ≤ min sys.env.capacity bufLen

/-- The ranges of a dump fit. -/
def DumpsFit (sys : MdioSystem β) (name : List Byte) (mdev : MdioDevice) (regs : RegMap ι)
    (argv : List CStr) : Prop :=
  ∀ rest, argv = "dump".toList :: rest → ∀ arg ∈ rest, ∀ start stop,
    mdev.parseReg (some arg) true = .ok (start, stop) →
    RangeFits sys name mdev.driver regs start stop

/-- The bus functions of a device return C integers. -/
theorem device_intBus (dev : Device β) : IntBus dev.bus where
  read t reg b := by
    have hnat := Int.natCast_nonneg (dev.read t reg b).1.toNat
    exact Int.le_trans (by decide) hnat
  write _ _ _ _ := by
    show -2 ^ 31 ≤ (0 : Int)
    decide

/-- A program that ends on the quiet host ends on every host that is not late, with
the same words. -/
theorem words_of_halts {dev : Device β} {late : Nat → Bool} (hlate : ∀ n, late n = false)
    {prog : MdioProg} {b b' : β} {ws : Words}
    (h : (mdioNlEval prog dev.bus quietHost).Halts (.entry [] b)
      (.returned .progEnd 0 ws b')) :
    ∃ ticks, (mdioNlEval prog dev.bus (wordsHost late)).Halts (.entry ([], 0) b)
      (.returned .progEnd 0 (ws, ticks) b') := by
  obtain ⟨n, hn⟩ := h
  have hmap : (mdioNlEval prog dev.bus quietHost).run n (.entry [] b) =
      ((mdioNlEval prog dev.bus (wordsHost late)).run n (.entry ([], 0) b)).map
        (·.mapHost Prod.fst) (·.mapHost Prod.fst) :=
    mdioNlEval_mapHost Prod.fst (fun _ _ => rfl)
      (fun h => by simp [quietHost, wordsHost, hlate]) prog dev.bus n (.entry ([], 0) b)
  rw [hn] at hmap
  cases hrun : (mdioNlEval prog dev.bus (wordsHost late)).run n (.entry ([], 0) b) with
  | inl s => rw [hrun] at hmap; cases hmap
  | inr r =>
      rw [hrun] at hmap
      cases r with
      | bug => cases hmap
      | returned why ret h b'' =>
          simp only [Sum.map_inr, Sum.inr.injEq, EvalResult.mapHost, EvalResult.returned.injEq]
            at hmap
          obtain ⟨rfl, rfl, rfl, rfl⟩ := hmap
          exact ⟨h.2, n, hrun⟩

/-- And so with all fuel from some amount on. -/
theorem runWords_of_halts {dev : Device β} {late : Nat → Bool} (hlate : ∀ n, late n = false)
    {prog : MdioProg} {b b' : β} {ws : Words}
    (h : (mdioNlEval prog dev.bus quietHost).Halts (.entry [] b)
      (.returned .progEnd 0 ws b')) :
    ∃ n, ∀ fuel, n ≤ fuel → runWords dev.bus late prog b fuel = some (0, ws, b') := by
  obtain ⟨ticks, n, hn⟩ := words_of_halts hlate h
  refine ⟨n, fun fuel hle => ?_⟩
  obtain ⟨k, rfl⟩ := Nat.exists_eq_add_of_le hle
  rw [runWords, Machine.run_add_of_halted hn]

/-- One call for such a program. -/
theorem Serves.call {sys : MdioSystem β} {name : List Byte} {dev : Device β}
    (hserves : Serves sys name dev) (seq : BitVec 32) {prog : MdioProg} {timeout : BitVec 16}
    (hassembled : Assembled prog) (hlimit : timeout.toNat ≤ 10 * 1000)
    (hfits : 36 + align4 (name.length + 1) + 8 * prog.length ≤ bufLen) {b b' : β} {ws : Words}
    (h : (mdioNlEval prog dev.bus quietHost).Halts (.entry [] b) (.returned .progEnd 0 ws b'))
    (hone : OneMessage sys.env ws 0) (cb : OpCallback CStr) (out : CStr) :
    ∃ n, ∀ fuel, n ≤ fuel → mdioXferTimeout sys seq name prog cb out timeout b fuel =
      some ((delivered cb out 0 ws).1, (delivered cb out 0 ws).2, b') := by
  obtain ⟨n, hn⟩ := runWords_of_halts (hserves.onTime (limitRead sys.env.endian timeout)) h
  refine ⟨n, fun fuel hle => ?_⟩
  have hadm : Admissible name prog timeout :=
    ⟨hserves.noNul, hserves.short, hfits, hassembled.closed.valid, hlimit⟩
  rw [mdioXferTimeout_eq hserves.works seq hadm hserves.find (device_intBus dev) cb out b fuel,
    hn fuel hle]
  · rfl
  · intro ret ws' b'' hrun
    rw [hn fuel hle] at hrun
    cases hrun
    exact hone

/-! ## One command line -/

section Line

variable {rep : β → (ι → BitVec 16) → Prop} {dev : Device β} {sys : MdioSystem β}
  {name : List Byte}

/-- The name and a short program leave the buffer room. -/
theorem Serves.fits (hserves : Serves sys name dev) {prog : MdioProg} (hlen : prog.length ≤ 32) :
    36 + align4 (name.length + 1) + 8 * prog.length ≤ bufLen := by
  have hshort := hserves.short
  have halign : align4 (name.length + 1) ≤ name.length + 4 := by
    unfold align4
    omega
  unfold miiBusIdSize at hshort
  unfold bufLen
  omega

/-- So does a reply with one word. -/
theorem Serves.oneMessage (hserves : Serves sys name dev) {ws : Words} (hlen : ws.length ≤ 1) :
    OneMessage sys.env ws 0 := by
  have hroom := hserves.works.reliable.room
  have hnone : (errorBytes sys.env 0).length = 0 := by
    rw [errorBytes_length]
    rfl
  rw [OneMessage, hnone, bufLen]
  omega

omit [DecidableEq ι] in
/-- The reply to a dump that fits is one message. -/
theorem RangeFits.oneMessage {drv : MdioDriver} {regs : RegMap ι} {start stop : BitVec 32}
    (h : RangeFits sys name drv regs start stop) (word : BitVec 32 → BitVec 32) :
    OneMessage sys.env ((upTo (regs.first start) stop).map word) 0 := by
  have hnone : (errorBytes sys.env 0).length = 0 := by
    rw [errorBytes_length]
    rfl
  rw [OneMessage, hnone, List.length_map]
  exact h.reply

omit [DecidableEq ι] in
/-- A single call of an operation that goes well. -/
theorem Serves.finish_refines (hserves : Serves sys name dev) (seq : BitVec 32) {prog : MdioProg}
    {timeout : BitVec 16} (hassembled : Assembled prog) (hlimit : timeout.toNat ≤ 10 * 1000)
    (hlen : prog.length ≤ 32) {b b' : β} {ω : ι → BitVec 16} {ws : Words}
    (h : (mdioNlEval prog dev.bus quietHost).Halts (.entry [] b) (.returned .progEnd 0 ws b'))
    (hrep : rep b' ω) (hws : ws.length ≤ 1) {cb : OpCallback CStr} {out more : CStr}
    (hcb : cb ws 0 out = (0, out ++ more)) (failed : String) :
    Refines rep (fun fuel => runCommand sys seq name fuel (.xfer prog timeout (.finish failed))
      [cb] out b) out ⟨0, more, [], ω⟩ := by
  have hcall := hserves.call seq hassembled hlimit (hserves.fits hlen) h (hserves.oneMessage hws) cb out
  have hret : (delivered cb out 0 ws).1 = 0 := by simp [delivered, hcb]
  have hout : (delivered cb out 0 ws).2.arg = out ++ more := congrArg Prod.snd hcb
  rw [hret] at hcall
  have hrest := Refines.call (.finish failed) [] hcall hout
    (Refines.exit hrep 0 [] seq [] (out ++ more))
  simpa only [List.append_nil] using hrest

variable (hserves : Serves sys name dev) (rd : RegDevice dev rep) (seq : BitVec 32)
variable {b : β} {ω : ι → BitVec 16}

include hserves

/-- A raw operation over the socket. -/
theorem rawSend_refines (hrep : rep b ω) {reg : BitVec 32}
    {write : Option (BitVec 32 × BitVec 32)} (hallows : rd.allows (.raw reg write)) (out : CStr) :
    Refines rep (fun fuel => runCommand sys seq name fuel
        (.xfer (mdioCommonRawProg rd.mdev.driver reg write) xferTimeout
          (.finish "Raw operation failed"))
        [if write = none then rawReadPrint else rawWritePrint] out b) out
      ⟨0, (RegAccess.rawWords ω (rd.regs.addr reg) write).flatMap wordLine, [],
        RegAccess.rawRegs ω (rd.regs.addr reg) write⟩ := by
  have hshort : (mdioCommonRawProg rd.mdev.driver reg write).length ≤ 18 :=
    RegAccess.rawProg_short rd.relocates write
  obtain ⟨b', hhalts, hrep'⟩ := rd.halts hallows rfl (hshort.trans (by omega)) hrep
  refine hserves.finish_refines seq (mdioCommonRawProg_assembled rd.pushes reg write) (by decide)
    (hshort.trans (by omega)) hhalts hrep' ?_ ?_ _
  · cases write <;> simp [CommonOp.words, RegAccess.rawWords]
  · cases write with
    | none => rfl
    | some w => simp [rawWritePrint, mdioCommonRawWriteCb, CommonOp.words, RegAccess.rawWords]

/-- A benchmark over the socket. -/
theorem benchSend_refines (hrep : rep b ω) {reg : BitVec 32} {clock : Timespec × Timespec}
    (hclock : Clocked clock) {val : Option (BitVec 32)} (hallows : rd.allows (.bench reg val))
    (out : CStr) :
    Refines rep (fun fuel => runCommand sys seq name fuel
        (.xfer (mdioCommonBenchProg rd.mdev.driver reg val) longTimeout
          (.finish "Bench operation failed")) [benchPrint clock.1 clock.2] out b) out
      ⟨0, benchSpecText clock, [], RegAccess.benchRegs ω (rd.regs.addr reg) val⟩ := by
  have hshort : (mdioCommonBenchProg rd.mdev.driver reg val).length ≤ 22 :=
    RegAccess.benchProg_short rd.relocates val
  obtain ⟨b', hhalts, hrep'⟩ := rd.halts hallows rfl (hshort.trans (by omega)) hrep
  exact hserves.finish_refines seq (mdioCommonBenchProg_assembled rd.pushes reg val) (by decide)
    (hshort.trans (by omega)) hhalts hrep' (by simp [CommonOp.words])
    (benchPrint_quiet hclock out) _

/-- A raw operation is that on the register file. -/
theorem rawExec_refines (hrep : rep b ω) {argv : List CStr} (hwrite : rd.MayWrite argv)
    (out : CStr) :
    Refines rep (fun fuel => runCommand sys seq name fuel (mdioCommonRawExec rd.mdev argv)
      [rawCallback argv] out b) out
      (rawSpec rd.mdev.parseReg rd.mdev.width rd.regs argv ω) := by
  unfold mdioCommonRawExec rawSpec rawCallback
  simp only
  cases hreg : rd.mdev.parseReg argv.head? false with
  | error e => exact Refines.exit hrep _ _ seq _ out
  | ok range =>
      cases htail : argv.tail with
      | nil =>
          have hsend := rawSend_refines hserves rd seq hrep (rd.reads hreg).1 out
          rw [RegAccess.rawWords, List.flatMap_singleton] at hsend
          exact hsend
      | cons arg rest =>
          have hmay := hwrite range.1 range.2 hreg (by simp [htail])
          simp only
          cases hval : mdioParseVal rd.mdev.width (some arg) true with
          | error e => exact Refines.exit hrep _ _ seq _ out
          | ok write =>
              by_cases hmore : rest = []
              · simp only [hmore, ne_eq, not_true_eq_false, if_false]
                exact rawSend_refines hserves rd seq hrep (hmay.1 write) out
              · simp only [ne_eq, hmore, not_false_eq_true, if_true]
                exact Refines.exit hrep _ _ seq _ out

/-- A benchmark is that on the register file. -/
theorem benchExec_refines (hrep : rep b ω) {clock : Timespec × Timespec} (hclock : Clocked clock)
    {argv : List CStr} (hwrite : rd.MayWrite argv) (out : CStr) :
    Refines rep (fun fuel => runCommand sys seq name fuel (mdioCommonBenchExec rd.mdev argv)
      [benchPrint clock.1 clock.2] out b) out
      (benchSpec rd.mdev.parseReg rd.mdev.width rd.regs clock argv ω) := by
  unfold mdioCommonBenchExec benchSpec
  simp only
  cases hreg : rd.mdev.parseReg argv.head? false with
  | error e => exact Refines.exit hrep _ _ seq _ out
  | ok range =>
      cases htail : argv.tail with
      | nil => exact benchSend_refines hserves rd seq hrep hclock (rd.reads hreg).2 out
      | cons arg rest =>
          have hmay := hwrite range.1 range.2 hreg (by simp [htail])
          simp only
          cases hval : mdioParseVal rd.mdev.width (some arg) false with
          | error e => exact Refines.exit hrep _ _ seq _ out
          | ok val =>
              by_cases hmore : rest = []
              · simp only [hmore, ne_eq, not_true_eq_false, if_false]
                exact benchSend_refines hserves rd seq hrep hclock (hmay.2 val.1) out
              · simp only [ne_eq, hmore, not_false_eq_true, if_true]
                exact Refines.exit hrep _ _ seq _ out

/-- A dump, range by range: the registers printed so far are in front of those
of the ranges that follow. -/
theorem dumpExec_refines (argv : List CStr)
    (hfits : ∀ arg ∈ argv, ∀ start stop, rd.mdev.parseReg (some arg) true = .ok (start, stop) →
      RangeFits sys name rd.mdev.driver rd.regs start stop) (hrep : rep b ω) (out : CStr) :
    Refines rep (fun fuel => runCommand sys seq name fuel (mdioCommonDumpExec rd.mdev argv)
      (dumpCallbacks rd.mdev rd.regs argv) out b) out
      (dumpSpec rd.mdev.parseReg rd.regs argv ω) := by
  induction argv generalizing b out with
  | nil => exact Refines.exit hrep 0 [] seq [] out
  | cons arg rest ih =>
      unfold mdioCommonDumpExec dumpCallbacks dumpSpec
      cases hrange : rd.mdev.parseReg (some arg) true with
      | error e => exact Refines.exit hrep _ _ seq _ out
      | ok range =>
          obtain ⟨start, stop⟩ := range
          obtain ⟨hstop, hallows, prog, hprog⟩ := rd.dumps hrange
          have hfit := hfits arg List.mem_cons_self start stop hrange
          have hrequest := hfit.request prog hprog
          have hlen : prog.length ≤ 512 := by
            unfold bufLen at hrequest
            omega
          obtain ⟨b', hhalts, hrep'⟩ := rd.halts hallows hprog hlen hrep
          have hlimit : longTimeout.toNat ≤ 10 * 1000 := by decide
          have hcall := hserves.call seq (mdioCommonDumpProg_assembled rd.pushes hprog) hlimit
            hrequest hhalts (hfit.oneMessage _) (dumpPrint ⟨rd.regs.first start, stop⟩) out
          have hcb := dumpPrint_regs (rd.regs.first start) hstop
            (fun r => (ω (rd.regs.row start r)).setWidth 32) out
          simp only [CommonOp.words] at hcall
          simp only [hprog]
          by_cases hcount : rd.regs.first start ≤ stop ∨ rd.regs.first start = stop + 1
          · rw [if_pos hcount] at hcb ⊢
            have hret : (delivered (dumpPrint ⟨rd.regs.first start, stop⟩) out 0
                ((upTo (rd.regs.first start) stop).map
                  fun r => (ω (rd.regs.row start r)).setWidth 32)).1 = 0 := by
              simp [delivered, hcb]
            rw [hret] at hcall
            refine Refines.call _ (dumpCallbacks rd.mdev rd.regs rest) hcall
              (congrArg Prod.snd hcb) ?_
            exact ih (fun a ha => hfits a (List.mem_cons_of_mem _ ha)) hrep' _
          · rw [if_neg hcount] at hcb ⊢
            have hret : (delivered (dumpPrint ⟨rd.regs.first start, stop⟩) out 0
                ((upTo (rd.regs.first start) stop).map
                  fun r => (ω (rd.regs.row start r)).setWidth 32)).1 = -1 := by
              simp [delivered, hcb]
            rw [hret] at hcall
            have hout := (congrArg Prod.snd hcb).trans (List.append_nil out).symm
            exact Refines.call (fun a => if a.err ≠ 0 then .finish "Dump operation failed" a
              else mdioCommonDumpExec rd.mdev rest) (dumpCallbacks rd.mdev rd.regs rest) hcall hout
              (Refines.exit hrep' 1 ["ERROR: Dump operation failed (-1)"] seq _ _)

/-- A command line of a common operation does what the register file does. -/
theorem mdioCommonExec_refines (hrep : rep b ω) {clock : Timespec × Timespec}
    (hclock : Clocked clock) {argv : List CStr} (hwrite : rd.MayWrite (writeOperands argv))
    (hfits : DumpsFit sys name rd.mdev rd.regs argv) (out : CStr) :
    Refines rep (fun fuel => runCommand sys seq name fuel (mdioCommonExec rd.mdev argv)
      (commonCallbacks rd.mdev rd.regs clock argv) out b) out
      (commonSpec rd.mdev.parseReg rd.mdev.width rd.regs clock argv ω) := by
  unfold mdioCommonExec commonCallbacks commonSpec
  cases argv with
  | nil => exact Refines.exit hrep _ _ seq _ out
  | cons op rest =>
      simp only [writeOperands] at hwrite ⊢
      by_cases hraw : op = "raw".toList
      · simp only [if_pos hraw]
        rw [if_pos (Or.inl hraw)] at hwrite
        exact rawExec_refines hserves rd seq hrep hwrite out
      · by_cases hbench : op = "bench".toList
        · simp only [if_neg hraw, if_pos hbench]
          rw [if_pos (Or.inr hbench)] at hwrite
          exact benchExec_refines hserves rd seq hrep hclock hwrite out
        · rw [if_neg (not_or.mpr ⟨hraw, hbench⟩)] at hwrite
          by_cases hdump : op = "dump".toList
          · simp only [if_neg hraw, if_neg hbench, if_pos hdump]
            exact dumpExec_refines hserves rd seq rest (hfits rest (by rw [hdump])) hrep out
          · simp only [if_neg hraw, if_neg hbench, if_neg hdump]
            rw [if_neg hdump] at hwrite
            exact rawExec_refines hserves rd seq hrep hwrite out

end Line

/-! ## Sequences of command lines -/

/-- A command line that is a common operation on a device: the words behind the
bus, the time at which it is sent, and the clock of a benchmark. -/
structure SessionLine (dev : Device β) (rep : β → (ι → BitVec 16) → Prop) where
  rd : RegDevice dev rep
  argv : List CStr
  args : List CStr
  exec : mainExec argv = mdioCommonExec rd.mdev args
  mayWrite : rd.MayWrite (writeOperands args)
  seq : BitVec 32
  clock : Timespec × Timespec
  clocked : Clocked clock

/-- What a user sees of a command: the status, the output and the messages. -/
abbrev Shown : Type :=
  Int × CStr × List String

def ExecRun.shown {α : Type} (r : ExecRun α) : Shown :=
  (r.status, r.out, r.msgs)

section Session

variable {rep : β → (ι → BitVec 16) → Prop} {dev : Device β} {sys : MdioSystem β}
  {name : List Byte}

/-- The command of a line. -/
def SessionLine.run (sys : MdioSystem β) (name : List Byte) (fuel : Nat) (l : SessionLine dev rep)
    (b : β) : Option (ExecRun β) :=
  runCommand sys l.seq name fuel (mainExec l.argv)
    (commonCallbacks l.rd.mdev l.rd.regs l.clock l.args) [] b

/-- The same on a register file. -/
def SessionLine.spec (l : SessionLine dev rep) (ω : ι → BitVec 16) : ExecRun (ι → BitVec 16) :=
  commonSpec l.rd.mdev.parseReg l.rd.mdev.width l.rd.regs l.clock l.args ω

/-- The lines one after another. -/
def runSession (sys : MdioSystem β) (name : List Byte) (fuel : Nat) :
    List (SessionLine dev rep) → β → Option (List Shown × β)
  | [], b => some ([], b)
  | l :: ls, b => (l.run sys name fuel b).bind fun r =>
      (runSession sys name fuel ls r.bus).map fun rs => (r.shown :: rs.1, rs.2)

def sessionSpec : List (SessionLine dev rep) → (ι → BitVec 16) → List Shown × (ι → BitVec 16)
  | [], ω => ([], ω)
  | l :: ls, ω =>
      let rs := sessionSpec ls (l.spec ω).bus
      ((l.spec ω).shown :: rs.1, rs.2)

/-- A command line of a session is the operation on the register file. -/
theorem SessionLine.refines (hserves : Serves sys name dev) (l : SessionLine dev rep)
    (hfits : DumpsFit sys name l.rd.mdev l.rd.regs l.args) {b : β} {ω : ι → BitVec 16} (hrep : rep b ω) :
    ∃ n b', (∀ fuel, n ≤ fuel → ∃ r, l.run sys name fuel b = some r ∧ r.bus = b' ∧
      r.shown = (l.spec ω).shown) ∧ rep b' (l.spec ω).bus := by
  obtain ⟨n, b', hn, hrep'⟩ := mdioCommonExec_refines hserves l.rd l.seq hrep l.clocked l.mayWrite
    hfits []
  refine ⟨n, b', fun fuel hle => ⟨⟨(l.spec ω).status, (l.spec ω).out, (l.spec ω).msgs, b'⟩, ?_,
    rfl, rfl⟩, hrep'⟩
  rw [SessionLine.run, l.exec]
  exact hn fuel hle

/-- Over all command lines the tool shows what the register file shows, and the
bus it leaves holds the registers of the register file. -/
theorem runSession_refines (hserves : Serves sys name dev) (ls : List (SessionLine dev rep))
    (hfits : ∀ l ∈ ls, DumpsFit sys name l.rd.mdev l.rd.regs l.args) {b : β} {ω : ι → BitVec 16}
    (hrep : rep b ω) :
    ∃ n b', (∀ fuel, n ≤ fuel → runSession sys name fuel ls b = some ((sessionSpec ls ω).1, b')) ∧
      rep b' (sessionSpec ls ω).2 := by
  induction ls generalizing b ω with
  | nil => exact ⟨0, b, fun _ _ => rfl, hrep⟩
  | cons l ls ih =>
      obtain ⟨n, b₁, hn, hrep₁⟩ := l.refines hserves (hfits l List.mem_cons_self) hrep
      obtain ⟨n', b', hn', hrep'⟩ := ih (fun l hl => hfits l (List.mem_cons_of_mem _ hl)) hrep₁
      refine ⟨max n n', b', fun fuel hle => ?_, hrep'⟩
      obtain ⟨r, hrun, rfl, hshown⟩ := hn fuel (by omega)
      rw [runSession, hrun, Option.bind_some, hn' fuel (by omega), Option.map_some, hshown]
      rfl

end Session

end MdioTools.System
