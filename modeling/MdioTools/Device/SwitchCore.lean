import MdioTools.Device.BusAccess

/-!
# Switches whose registers act

The registers of a switch are more than a memory: a write can start an
operation, and a read can tell whether it is over.  A core says what its
registers do; both addressings put a core on the bus, and the driver reaches its
registers one by one in either of them.

Main results:

- Definition {lit}`SwitchCore`: what reads and writes of the registers do.
- Definition {lit}`Addressing`: a core in single-chip or in multi-chip
  addressing.
- Theorems {lit}`Addressing.read_runs`, {lit}`Addressing.write_runs`,
  {lit}`Addressing.wait_runs` and {lit}`Addressing.modify_runs`: the fragments of
  the driver.
-/

namespace MdioTools.Device

open Client Kernel Library

/-! ## Cores -/

/-- What a switch does when one of its registers is read or written. -/
structure SwitchCore (σ : Type) where
  get : BitVec 5 × BitVec 5 → σ → BitVec 16 × σ
  put : BitVec 5 × BitVec 5 → BitVec 16 → σ → σ

variable {σ : Type} (core : SwitchCore σ)

/-- Read a register until its busy bit is 0. -/
inductive SwitchCore.Polls (a : BitVec 5 × BitVec 5) : σ → σ → Prop
  | idle {s : σ} : (core.get a s).1.getLsbD 15 = false → Polls a s (core.get a s).2
  | busy {s s' : σ} : (core.get a s).1.getLsbD 15 = true → Polls a (core.get a s).2 s' →
      Polls a s s'

variable {core}

theorem SwitchCore.Polls.done {a : BitVec 5 × BitVec 5} {s s' : σ} {v : BitVec 16}
    (hget : core.get a s = (v, s')) (hidle : v.getLsbD 15 = false) : core.Polls a s s' := by
  have hpolls : core.Polls a s (core.get a s).2 := .idle (by rw [hget]; exact hidle)
  rwa [hget] at hpolls

theorem SwitchCore.Polls.again {a : BitVec 5 × BitVec 5} {s s₁ s' : σ} {v : BitVec 16}
    (hget : core.get a s = (v, s₁)) (hbusy : v.getLsbD 15 = true) (hrest : core.Polls a s₁ s') :
    core.Polls a s s' :=
  .busy (by rw [hget]; exact hbusy) (by rw [hget]; exact hrest)

/-- A register that is busy for a number of reads is idle behind them. -/
theorem SwitchCore.polls_countdown {a : BitVec 5 × BitVec 5} (busy : σ → Nat) (idle : σ → σ)
    (hidle : ∀ s, busy s = 0 → ∃ v, core.get a s = (v, idle s) ∧ v.getLsbD 15 = false)
    (hbusy : ∀ s n, busy s = n + 1 → ∃ v s₁, core.get a s = (v, s₁) ∧ v.getLsbD 15 = true ∧
      busy s₁ = n ∧ idle s₁ = idle s) (s : σ) : core.Polls a s (idle s) := by
  generalize hn : busy s = n
  induction n generalizing s with
  | zero =>
      obtain ⟨v, hget, hbit⟩ := hidle s hn
      exact .done hget hbit
  | succ n ih =>
      obtain ⟨v, s₁, hget, hbit, hleft, hsame⟩ := hbusy s n hn
      exact .again hget hbit (hsame ▸ ih s₁ hleft)

variable (core)

/-! ## Both addressings -/

/-- A core in single-chip addressing. -/
def directCore : Device σ where
  read t reg s :=
    match directAddr t reg with
    | some a => core.get a s
    | none => (BitVec.allOnes 16, s)
  write t reg val s :=
    match directAddr t reg with
    | some a => core.put a val s
    | none => s

/-- A core behind CMD and DATA, with the command in progress and the polls that
it and the commands to come will be seen busy. -/
structure SmiCore (σ : Type) where
  core : σ
  cmd : BitVec 16
  data : BitVec 16
  pending : Option (BitVec 16 × Nat)
  polls : Nat → Nat

/-- The access of a command. -/
def SmiCore.perform (b : SmiCore σ) (c : BitVec 16) : SmiCore σ :=
  if smiOp c = 1 then { b with core := core.put (smiAddr c) b.data b.core }
  else if smiOp c = 2 then
    { b with
      core := (core.get (smiAddr c) b.core).2
      data := (core.get (smiAddr c) b.core).1 }
  else b

/-- A read of CMD. -/
def SmiCore.readCmd (b : SmiCore σ) : BitVec 16 × SmiCore σ :=
  match b.pending with
  | none => (b.cmd &&& 0x7fff, b)
  | some (c, n + 1) => (c ||| 0x8000, { b with pending := some (c, n) })
  | some (c, 0) => (c &&& 0x7fff, { b.perform core c with pending := none, cmd := c &&& 0x7fff })

/-- A write of CMD. -/
def SmiCore.writeCmd (b : SmiCore σ) (c : BitVec 16) : SmiCore σ :=
  if b.pending.isNone && smiStarts c then
    { b with pending := some (c, b.polls 0), polls := fun k => b.polls (k + 1) }
  else b

/-- A core in multi-chip addressing.  While a command is in progress, DATA reads
as `junk` and writes are lost. -/
def smiCore (id junk : BitVec 16) : Device (SmiCore σ) where
  read t reg b :=
    if t = .c22 id then
      if reg = 0 then b.readCmd core
      else if reg = 1 then (if b.pending.isNone then b.data else junk, b)
      else (BitVec.allOnes 16, b)
    else (BitVec.allOnes 16, b)
  write t reg val b :=
    if t = .c22 id then
      if reg = 0 then b.writeCmd val
      else if reg = 1 then (if b.pending.isNone then { b with data := val } else b)
      else b
    else b

/-- The ways to put a switch on the bus. -/
inductive Addressing
  | single
  | multi (id junk : BitVec 16) (hid : 1 ≤ id.toNat ∧ id.toNat ≤ 31)

namespace Addressing

/-- The address that the client is given. -/
def id : Addressing → BitVec 16
  | single => 0
  | multi id _ _ => id

/-- The states of a switch on the bus. -/
def State (σ : Type) : Addressing → Type
  | single => σ
  | multi _ _ _ => SmiCore σ

/-- A switch on the bus. -/
def device : (adr : Addressing) → Device (adr.State σ)
  | single => directCore core
  | multi id junk _ => smiCore core id junk

/-- A switch on the bus with a core in a given state, and no command in
progress. -/
def Represents : (adr : Addressing) → adr.State σ → σ → Prop
  | single, b, s => b = s
  | multi _ _ _, b, s => SmiCore.pending b = none ∧ SmiCore.core b = s

end Addressing

/-! ## Accesses -/

theorem directAddr_port {reg : BitVec 32} (h : SwitchReg reg) :
    directAddr (mdioTarget (mvlsBusPort reg)) (mvlsBusReg reg) = some (switchAddr reg) := by
  have haddr := directAddr_eq h
  rwa [setWidth_setWidth32] at haddr

section Smi

variable {id : BitVec 16} (junk : BitVec 16)

theorem smiTarget (hid : id.toNat ≤ 31) : mdioTarget id = .c22 id :=
  mdioTarget_of_lt (by omega)

/-- The polls of a command end with its access. -/
theorem smiCore_polls (hid : id.toNat ≤ 31) {c : BitVec 16} {n : Nat} {b : SmiCore σ}
    (hpending : b.pending = some (c, n)) :
    MvlsPolls (smiCore core id junk) id b
      { b.perform core c with pending := none, cmd := c &&& 0x7fff } := by
  have hread : ∀ b : SmiCore σ, (smiCore core id junk).read
      (mdioTarget ((id.setWidth 8 : BitVec 8).setWidth 16)) 0 b = b.readCmd core := fun b => by
    simp [smiCore, smiTarget_low hid]
  induction n generalizing b with
  | zero =>
      have hlast : b.readCmd core = (c &&& 0x7fff,
          { b.perform core c with pending := none, cmd := c &&& 0x7fff }) := by
        simp [SmiCore.readCmd, hpending]
      have hidle : MvlsPolls (smiCore core id junk) id b _ := .idle (by rw [hread, hlast]; simp)
      rwa [hread, hlast] at hidle
  | succ n ih =>
      have hpoll : b.readCmd core = (c ||| 0x8000, { b with pending := some (c, n) }) := by
        simp [SmiCore.readCmd, hpending]
      apply MvlsPolls.busy
      · rw [hread, hpoll]
        simp
      · rw [hread, hpoll]
        have hrest := ih (b := { b with pending := some (c, n) }) rfl
        have hsame : (SmiCore.perform core { b with pending := some (c, n) } c).core =
            (b.perform core c).core ∧
            (SmiCore.perform core { b with pending := some (c, n) } c).data =
              (b.perform core c).data ∧
            (SmiCore.perform core { b with pending := some (c, n) } c).polls =
              (b.perform core c).polls := by
          unfold SmiCore.perform
          split_ifs <;> exact ⟨rfl, rfl, rfl⟩
        obtain ⟨hcore, hdata, hpolls⟩ := hsame
        simpa only [hcore, hdata, hpolls] using hrest

/-- Start a command on an idle switch and poll until it is over. -/
theorem smiCore_command (hid : id.toNat ≤ 31) {reg : BitVec 32} (hreg : SwitchReg reg)
    (write : Bool) {b : SmiCore σ} (hidle : b.pending = none) :
    ∃ b', MvlsPolls (smiCore core id junk) id
        ((smiCore core id junk).write (mdioTarget id) 0 (smiWord reg write) b) b' ∧
      b'.pending = none ∧
      b'.core = (if write then core.put (switchAddr reg) b.data b.core
        else (core.get (switchAddr reg) b.core).2) ∧
      (write = false → b'.data = (core.get (switchAddr reg) b.core).1) := by
  obtain ⟨hstarts, hop, haddr⟩ := smiWord_fields hreg write
  have hwrite : (smiCore core id junk).write (mdioTarget id) 0 (smiWord reg write) b =
      { b with
        pending := some (smiWord reg write, b.polls 0)
        polls := fun k => b.polls (k + 1) } := by
    simp [smiCore, smiTarget hid, SmiCore.writeCmd, hidle, hstarts]
  rw [hwrite]
  refine ⟨_, smiCore_polls core junk hid rfl, rfl, ?_, ?_⟩
  · cases write <;> simp [SmiCore.perform, hop, haddr]
  · rintro rfl
    simp [SmiCore.perform, hop, haddr]

end Smi

namespace Addressing

variable (adr : Addressing) {reg : BitVec 32} {b : adr.State σ} {s : σ}

/-- A driver-level read is a read of the register. -/
theorem busRead (hreg : SwitchReg reg) (hrep : adr.Represents b s) :
    ∃ b', MvlsBusRead (adr.device core) adr.id reg b (core.get (switchAddr reg) s).1 b' ∧
      adr.Represents b' (core.get (switchAddr reg) s).2 := by
  cases adr with
  | single =>
      obtain rfl : b = s := hrep
      refine ⟨(core.get (switchAddr reg) b).2, (if_pos rfl).mpr ?_, rfl⟩
      simp only [device, directCore, directAddr_port hreg]
      rfl
  | multi id junk hid =>
      obtain ⟨hidle, rfl⟩ : SmiCore.pending b = none ∧ SmiCore.core b = s := hrep
      have hne : (multi id junk hid).id ≠ 0 := fun h => by
        rw [show id = 0 from h] at hid
        exact absurd hid.1 (by decide)
      obtain ⟨b', hpolls, hidle', hcore, hdata⟩ := smiCore_command core junk hid.2 hreg false hidle
      refine ⟨b', (if_neg hne).mpr ⟨b', hpolls, ?_⟩, hidle', hcore⟩
      simp [device, smiCore, Addressing.id, smiTarget hid.2, hidle', hdata]
      rfl

/-- A driver-level write is a write of the register. -/
theorem busWrite (hreg : SwitchReg reg) (val : BitVec 16) (hrep : adr.Represents b s) :
    ∃ b', MvlsBusWrite (adr.device core) adr.id reg val b b' ∧
      adr.Represents b' (core.put (switchAddr reg) val s) := by
  cases adr with
  | single =>
      obtain rfl : b = s := hrep
      refine ⟨core.put (switchAddr reg) val b, (if_pos rfl).mpr ?_, rfl⟩
      simp only [device, directCore, directAddr_port hreg]
      rfl
  | multi id junk hid =>
      obtain ⟨hidle, rfl⟩ : SmiCore.pending b = none ∧ SmiCore.core b = s := hrep
      have hne : (multi id junk hid).id ≠ 0 := fun h => by
        rw [show id = 0 from h] at hid
        exact absurd hid.1 (by decide)
      have hput : (smiCore core id junk).write (mdioTarget id) 1 val b =
          { (b : SmiCore σ) with data := val } := by
        simp [smiCore, smiTarget hid.2, hidle]
      obtain ⟨b', hpolls, hidle', hcore, -⟩ := smiCore_command core junk hid.2 hreg true
        (b := { (b : SmiCore σ) with data := val }) hidle
      rw [← hput] at hpolls
      exact ⟨b', (if_neg hne).mpr hpolls, hidle', hcore⟩

/-! ## Fragments -/

variable {d : VmData Words (adr.State σ)}

/-- A read brings the register to register 0. -/
theorem read_runs (hreg : SwitchReg reg) (hrep : adr.Represents d.bus s) :
    ∃ d', Runs (adr.device core) (mvlsRead adr.id [] reg) d d' ∧ Scratch d d' ∧
      d'.regs 0 = (core.get (switchAddr reg) s).1 ∧
      adr.Represents d'.bus (core.get (switchAddr reg) s).2 := by
  obtain ⟨b', hread, hrep'⟩ := adr.busRead core hreg hrep
  exact ⟨_, mvlsRead_runs _ hread, .set d b' _, rfl, hrep'⟩

/-- A write of an operand. -/
theorem write_runs (hreg : SwitchReg reg) {a : BitVec 32} {A : Operand}
    (ha : decodeRi (a.setWidth 18) = some A) (hrep : adr.Represents d.bus s) :
    ∃ d', Runs (adr.device core) (mvlsWrite adr.id [] reg a) d d' ∧ Scratch d d' ∧
      adr.Represents d'.bus (core.put (switchAddr reg) (A.eval d.regs) s) := by
  obtain ⟨b', hwrite, hrep'⟩ := adr.busWrite core hreg (A.eval d.regs) hrep
  obtain ⟨d', hruns, hscratch, rfl⟩ := mvlsWrite_runs _ ha hwrite
  exact ⟨d', hruns, hscratch, hrep'⟩

/-- A read whose value is emitted. -/
theorem emit_runs (hreg : SwitchReg reg) (hrep : adr.Represents d.bus s) :
    ∃ d', Runs (adr.device core) (mvlsRead adr.id [] reg ++ [insn .emit (regArg 0) 0 0]) d d' ∧
      (∀ r, r ≠ 0 → d'.regs r = d.regs r) ∧
      d'.host = d.host ++ [(core.get (switchAddr reg) s).1.setWidth 32] ∧
      adr.Represents d'.bus (core.get (switchAddr reg) s).2 := by
  obtain ⟨d₁, hread, hscratch, hreg0, hrep'⟩ := adr.read_runs core hreg hrep
  refine ⟨_, hread.append (Runs.emit (adr.device core) d₁ (decodeRi_regArg 0)), hscratch.regs, ?_,
    hrep'⟩
  rw [← hreg0, ← hscratch.host]
  rfl

end Addressing

/-- `mvls_wait` is a loop around a read. -/
theorem mvlsWait_nil (id : BitVec 16) (reg : BitVec 32) :
    mvlsWait id [] reg = busyLoop (mvlsRead id [] reg) := by
  simp [mvlsWait, busyLoop, mvlsRead, mdioProgPush]

theorem mvlsWait_append (id : BitVec 16) (prog : MdioProg) (reg : BitVec 32) :
    mvlsWait id prog reg = prog ++ mvlsWait id [] reg := by
  have hread : mvlsReadTo id prog reg 0 = prog ++ mvlsReadTo id [] reg 0 :=
    mvlsRead_append id prog reg
  have hshift := gotoArg_shift prog.length ((mvlsReadTo id [] reg 0).length + 1 : Nat) 0
  rw [Int.add_zero, ← Int.natCast_add] at hshift
  simp only [mvlsWait, hread, mdioProgPush, List.append_assoc, List.length_append,
    List.length_singleton, List.length_nil]
  rw [hshift]
  rfl

namespace Addressing

variable (adr : Addressing) {reg : BitVec 32} {s s' : σ} {d : VmData Words (adr.State σ)}

/-- Waiting for a register that is not busy any more at some time. -/
theorem wait_runs (hreg : SwitchReg reg) (h : core.Polls (switchAddr reg) s s')
    (hrep : adr.Represents d.bus s) :
    ∃ d', Runs (adr.device core) (mvlsWait adr.id [] reg) d d' ∧ Scratch d d' ∧
      adr.Represents d'.bus s' := by
  rw [mvlsWait_nil]
  induction h generalizing d with
  | idle hidle =>
      obtain ⟨d₁, hread, hscratch, hreg0, hrep'⟩ := adr.read_runs core hreg hrep
      refine ⟨_, busyLoop_done hread (hreg0 ▸ hidle), ?_, hrep'⟩
      exact hscratch.trans (.set d₁ d₁.bus 0)
  | busy hbusy _ ih =>
      obtain ⟨d₁, hread, hscratch, hreg0, hrep'⟩ := adr.read_runs core hreg hrep
      obtain ⟨d', hagain, hscratch', hrep''⟩ := ih (d := d₁.set 0 0x8000) hrep'
      have hlen := mvlsRead_length adr.id reg
      exact ⟨d', busyLoop_again (by omega) hread (hreg0 ▸ hbusy) hagain,
        (hscratch.trans (.set d₁ d₁.bus 0x8000)).trans hscratch', hrep''⟩

end Addressing

/-- Read a register, keep the bits of a mask, set others and write it back. -/
def mvlsModify (id : BitVec 16) (reg mask val : BitVec 32) : MdioProg :=
  mvlsRead id [] reg ++ ([insn .and (regArg 0) (immArg mask) (regArg 0)] ++
    ([insn .or (regArg 0) (immArg val) (regArg 0)] ++ mvlsWrite id [] reg (regArg 0)))

theorem mvlsWait_length (id : BitVec 16) (reg : BitVec 32) : (mvlsWait id [] reg).length ≤ 10 := by
  have hread := mvlsRead_length id reg
  simp only [mvlsWait_nil, busyLoop, List.length_append, List.length_singleton]
  omega

theorem mvlsModify_length (id : BitVec 16) (reg mask val : BitVec 32) :
    (mvlsModify id reg mask val).length ≤ 18 := by
  have hread := mvlsRead_length id reg
  have hwrite := mvlsWrite_length id reg (regArg 0)
  simp only [mvlsModify, List.length_append, List.length_singleton]
  omega

/-- A read, a change under a mask and a write. -/
theorem Addressing.modify_runs (adr : Addressing) {reg : BitVec 32} (hreg : SwitchReg reg)
    (mask val : BitVec 32) {s : σ} {d : VmData Words (adr.State σ)}
    (hrep : adr.Represents d.bus s) :
    ∃ d', Runs (adr.device core) (mvlsModify adr.id reg mask val) d d' ∧ Scratch d d' ∧
      adr.Represents d'.bus (core.put (switchAddr reg)
        ((core.get (switchAddr reg) s).1 &&& mask.setWidth 16 ||| val.setWidth 16)
        (core.get (switchAddr reg) s).2) := by
  obtain ⟨d₁, hread, hscratch, hreg0, hrep₁⟩ := adr.read_runs core hreg hrep
  have hand : Runs (adr.device core) [insn .and (regArg 0) (immArg mask) (regArg 0)] d₁
      (d₁.set 0 (d₁.regs 0 &&& mask.setWidth 16)) :=
    Runs.alu _ d₁ .and (decodeRi_regArg 0) (decodeRi_immArg mask) 0
  let d₂ := d₁.set 0 (d₁.regs 0 &&& mask.setWidth 16)
  have hor : Runs (adr.device core) [insn .or (regArg 0) (immArg val) (regArg 0)] d₂
      (d₂.set 0 (d₂.regs 0 ||| val.setWidth 16)) :=
    Runs.alu _ d₂ .or (decodeRi_regArg 0) (decodeRi_immArg val) 0
  let d₃ := d₂.set 0 (d₂.regs 0 ||| val.setWidth 16)
  obtain ⟨d', hwrite, hscratch', hrep'⟩ :=
    adr.write_runs core hreg (decodeRi_regArg 0) (d := d₃) hrep₁
  have hvalue : (Operand.reg (regIndex 0)).eval d₃.regs =
      (core.get (switchAddr reg) s).1 &&& mask.setWidth 16 ||| val.setWidth 16 := by
    simp [d₃, d₂, Operand.eval, hreg0]
  rw [hvalue] at hrep'
  refine ⟨d', hread.append (hand.append (hor.append hwrite)), ?_, hrep'⟩
  exact ((hscratch.trans (.set d₁ d₁.bus _)).trans (.set d₂ d₂.bus _)).trans hscratch'

end MdioTools.Device
