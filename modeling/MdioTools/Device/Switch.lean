import MdioTools.Client.Parse
import MdioTools.Device.RegAccess

/-!
# LinkStreet switches in single-chip and multi-chip addressing

With address 0 the ports of a switch are devices on the bus.  With another
address the switch is one device: a command written to register CMD starts an
access through register DATA, and it is over when CMD reads without the busy
bit.  This module gives both devices over the same switch registers, and shows
that the driver reaches them in the same way, however long each command takes.

Main results:

- Definitions {lit}`directSwitch` and {lit}`smiSwitch`: the two devices.
- Theorem {lit}`mvlsPolls_runs`: the polling loop on any device.
- Theorem {lit}`waitCmd_runs`: the polling loop ends when the command does.
- Definitions {lit}`directAccess` and {lit}`smiAccess`: the driver meets its
  contract on both.
- Theorem {lit}`mvls_addressing_agrees`: both addressings do the same.
-/

namespace MdioTools.Device

open Client Kernel Library

/-- The registers of a switch, by port and number. -/
abbrev SwitchRegs : Type :=
  BitVec 5 × BitVec 5 → BitVec 16

/-- The switch register that a client's register number stands for. -/
def switchAddr (reg : BitVec 32) : BitVec 5 × BitVec 5 :=
  ((reg >>> 16).setWidth 5, reg.setWidth 5)

/-! ## Single-chip addressing -/

/-- The switch register at a bus address, if there is one. -/
def directAddr : MdioTarget → BitVec 16 → Option (BitVec 5 × BitVec 5)
  | .c22 addr, reg =>
      if addr.toNat < 32 ∧ reg.toNat < 32 then some (addr.setWidth 5, reg.setWidth 5) else none
  | .c45 _ _, _ => none

/-- A switch that uses the whole bus.  Where there is no register, reads give
all ones and writes are lost. -/
def directSwitch : Device SwitchRegs where
  read t reg ω :=
    match directAddr t reg with
    | some a => (ω a, ω)
    | none => (BitVec.allOnes 16, ω)
  write t reg val ω :=
    match directAddr t reg with
    | some a => Function.update ω a val
    | none => ω

/-! ## Multi-chip addressing -/

/-- A switch behind CMD and DATA: its registers, the two interface registers,
the command in progress with the number of polls that it will still be seen
busy, and these numbers for the commands to come. -/
structure SmiSwitch where
  regs : SwitchRegs
  cmd : BitVec 16
  data : BitVec 16
  pending : Option (BitVec 16 × Nat)
  polls : Nat → Nat

/-- The fields of a command: whether it is one (BUSY and C22 set), its
operation, port and register. -/
def smiStarts (c : BitVec 16) : Bool :=
  c.getLsbD 15 && c.getLsbD 12

def smiOp (c : BitVec 16) : BitVec 2 := (c >>> 10).setWidth 2

def smiAddr (c : BitVec 16) : BitVec 5 × BitVec 5 := ((c >>> 5).setWidth 5, c.setWidth 5)

/-- The access of a command: operation 1 writes, operation 2 reads. -/
def SmiSwitch.perform (s : SmiSwitch) (c : BitVec 16) : SmiSwitch :=
  if smiOp c = 1 then { s with regs := Function.update s.regs (smiAddr c) s.data }
  else if smiOp c = 2 then { s with data := s.regs (smiAddr c) }
  else s

/-- A read of CMD: while the command is busy, one poll less is left; at the
last one the access is made and BUSY reads 0. -/
def SmiSwitch.readCmd (s : SmiSwitch) : BitVec 16 × SmiSwitch :=
  match s.pending with
  | none => (s.cmd &&& 0x7fff, s)
  | some (c, n + 1) => (c ||| 0x8000, { s with pending := some (c, n) })
  | some (c, 0) => (c &&& 0x7fff, { s.perform c with pending := none, cmd := c &&& 0x7fff })

/-- A write of CMD: an idle switch starts the command. -/
def SmiSwitch.writeCmd (s : SmiSwitch) (c : BitVec 16) : SmiSwitch :=
  if s.pending.isNone && smiStarts c then
    { s with pending := some (c, s.polls 0), polls := fun k => s.polls (k + 1) }
  else s

/-- A switch with address `id`.  While a command is in progress, DATA reads as
`junk` and writes are lost. -/
def smiSwitch (id junk : BitVec 16) : Device SmiSwitch where
  read t reg s :=
    if t = .c22 id then
      if reg = 0 then s.readCmd
      else if reg = 1 then (if s.pending.isNone then s.data else junk, s)
      else (BitVec.allOnes 16, s)
    else (BitVec.allOnes 16, s)
  write t reg val s :=
    if t = .c22 id then
      if reg = 0 then s.writeCmd val
      else if reg = 1 then (if s.pending.isNone then { s with data := val } else s)
      else s
    else s

/-- An idle switch with the given registers. -/
def SmiSwitch.Represents (s : SmiSwitch) (ω : SwitchRegs) : Prop :=
  s.pending = none ∧ s.regs = ω

/-! ## Register numbers -/

/-- The register numbers that `mvls_parse_reg` makes. -/
def SwitchReg (reg : BitVec 32) : Prop :=
  ∃ port r : BitVec 32, port.toNat ≤ 31 ∧ r.toNat ≤ 31 ∧ reg = mvlsReg port r

/-- The port is in the upper half of the word, the register in the lower. -/
theorem mvlsReg_toNat {port r : BitVec 32} (hport : port.toNat ≤ 31) (hr : r.toNat ≤ 31) :
    (mvlsReg port r).toNat = port.toNat * 65536 + r.toNat := by
  have hlt : r.toNat < 2 ^ 16 := by omega
  unfold mvlsReg
  rw [BitVec.toNat_or, BitVec.toNat_shiftLeft, Nat.mod_eq_of_lt (by rw [Nat.shiftLeft_eq]; omega),
    ← Nat.shiftLeft_add_eq_or_of_lt hlt, Nat.shiftLeft_eq]

/-- The port and the register of a register number. -/
theorem SwitchReg.parts {reg : BitVec 32} (h : SwitchReg reg) :
    ((reg >>> 16).setWidth 16 : BitVec 16).toNat ≤ 31 ∧ (reg &&& 0xffff).toNat ≤ 31 ∧
      ((reg &&& 0xffff).setWidth 16 : BitVec 16) = reg.setWidth 16 := by
  obtain ⟨port, r, hport, hr, rfl⟩ := h
  have hnat := mvlsReg_toNat hport hr
  have hlow : (mvlsReg port r &&& 0xffff).toNat = r.toNat := by
    have hmask : (0xffff : BitVec 32).toNat = 2 ^ 16 - 1 := rfl
    rw [BitVec.toNat_and, hmask, Nat.and_two_pow_sub_one_eq_mod, hnat]
    omega
  refine ⟨?_, by omega, ?_⟩
  · simp only [BitVec.toNat_setWidth, BitVec.toNat_ushiftRight, hnat, Nat.shiftRight_eq_div_pow]
    omega
  · apply BitVec.eq_of_toNat_eq
    simp only [BitVec.toNat_setWidth, hlow, hnat]
    omega

/-! ## Polling -/

/-- The loop of `mvls_wait_cmd`. -/
def waitLoop (id : BitVec 8) : MdioProg :=
  [insn .read (immArg (id.setWidth 32)) (immArg mvlsCmd) (regArg 0),
    insn .and (regArg 0) (immArg mvlsCmdBusy) (regArg 0)] ++
  [insn .jeq (regArg 0) (immArg mvlsCmdBusy) (gotoArg (2 : Nat) 0)]

/-- `mvls_wait_cmd` appends the loop that waits. -/
theorem mvlsWaitCmd_append (prog : MdioProg) (id : BitVec 8) :
    mvlsWaitCmd prog id = prog ++ waitLoop id := by
  have hshift := gotoArg_shift prog.length (2 : Nat) 0
  rw [Int.add_zero, ← Int.natCast_add] at hshift
  simp only [mvlsWaitCmd, mdioProgPush, waitLoop, List.append_assoc, List.cons_append,
    List.nil_append, List.length_append, List.length_cons, List.length_nil]
  rw [← hshift]

/-- A loop that reads a word into register 0 and runs again while its busy bit
is set. -/
def busyLoop (frag : MdioProg) : MdioProg :=
  (frag ++ [insn .and (regArg 0) (immArg mvlsCmdBusy) (regArg 0)]) ++
    [insn .jeq (regArg 0) (immArg mvlsCmdBusy) (gotoArg (frag.length + 1 : Nat) 0)]

/-- The loop of `mvls_wait_cmd` reads CMD. -/
theorem waitLoop_eq (id : BitVec 8) : waitLoop id =
    busyLoop [insn .read (immArg (id.setWidth 32)) (immArg mvlsCmd) (regArg 0)] :=
  rfl

section BusyLoop

variable {β : Type} {dev : Device β} {frag : MdioProg} {d d₁ d' : VmData Words β}

/-- The busy bit is all that is kept of the word. -/
theorem busyMask_runs (hbody : Runs dev frag d d₁) :
    Runs dev (frag ++ [insn .and (regArg 0) (immArg mvlsCmdBusy) (regArg 0)]) d
      (d₁.set 0 (if (d₁.regs 0).getLsbD 15 then 0x8000 else 0)) := by
  have hmask : d₁.regs 0 &&& mvlsCmdBusy.setWidth 16 =
      if (d₁.regs 0).getLsbD 15 then 0x8000 else 0 := by
    have htop : (mvlsCmdBusy.setWidth 16 : BitVec 16) = BitVec.twoPow 16 15 := by decide
    rw [htop, BitVec.and_twoPow]
    rfl
  rw [← hmask]
  exact hbody.append (Runs.alu dev d₁ .and (decodeRi_regArg 0) (decodeRi_immArg mvlsCmdBusy) 0)

/-- A word without the busy bit ends the loop. -/
theorem busyLoop_done (hbody : Runs dev frag d d₁) (hidle : (d₁.regs 0).getLsbD 15 = false) :
    Runs dev (busyLoop frag) d (d₁.set 0 0) := by
  have hmask := busyMask_runs hbody
  rw [hidle] at hmask
  apply Runs.jump_past true hmask (decodeRi_regArg 0) (decodeRi_immArg mvlsCmdBusy)
    (argI_gotoArg _ _)
  simp [mvlsCmdBusy]

/-- A word with the busy bit runs it again. -/
theorem busyLoop_again (hlen : frag.length < 32767) (hbody : Runs dev frag d d₁)
    (hbusy : (d₁.regs 0).getLsbD 15 = true)
    (hagain : Runs dev (busyLoop frag) (d₁.set 0 0x8000) d') :
    Runs dev (busyLoop frag) d d' := by
  have hmask := busyMask_runs hbody
  rw [hbusy] at hmask
  have hlast : (frag ++ [insn .and (regArg 0) (immArg mvlsCmdBusy) (regArg 0)]).length =
      frag.length + 1 := by simp
  unfold busyLoop at hagain ⊢
  rw [← hlast] at hagain ⊢
  apply Runs.jump_back true hmask (by omega) (decodeRi_regArg 0) (decodeRi_immArg mvlsCmdBusy) ?_
    hagain
  simp [mvlsCmdBusy]

end BusyLoop

section Polls

variable {β : Type} (dev : Device β)

/-- Poll the command register of a switch until it is not busy. -/
inductive MvlsPolls (id : BitVec 16) : β → β → Prop
  | idle {b : β} :
      (dev.read (mdioTarget ((id.setWidth 8 : BitVec 8).setWidth 16)) 0 b).1.getLsbD 15 = false →
      MvlsPolls id b (dev.read (mdioTarget ((id.setWidth 8 : BitVec 8).setWidth 16)) 0 b).2
  | busy {b b' : β} :
      (dev.read (mdioTarget ((id.setWidth 8 : BitVec 8).setWidth 16)) 0 b).1.getLsbD 15 = true →
      MvlsPolls id (dev.read (mdioTarget ((id.setWidth 8 : BitVec 8).setWidth 16)) 0 b).2 b' →
      MvlsPolls id b b'

/-- The polling loop ends when the command register is not busy. -/
theorem mvlsPolls_runs {id : BitVec 16} {b b' : β} (h : MvlsPolls dev id b b')
    {d : VmData Words β} (hd : d.bus = b) :
    Runs dev (waitLoop (id.setWidth 8)) d ({ d with bus := b' }.set 0 0) := by
  have hpoll (d : VmData Words β) :=
    busRead_runs dev d ((id.setWidth 8 : BitVec 8).setWidth 32) mvlsCmd 0
  have htarget : ((((id.setWidth 8 : BitVec 8).setWidth 32 : BitVec 32)).setWidth 16 : BitVec 16) =
      (id.setWidth 8 : BitVec 8).setWidth 16 := BitVec.setWidth_setWidth_of_le _ (by omega)
  have hcmd : (mvlsCmd.setWidth 16 : BitVec 16) = 0 := rfl
  simp only [htarget, hcmd] at hpoll
  rw [waitLoop_eq]
  induction h generalizing d with
  | idle hidle =>
      subst hd
      simpa [VmData.set] using busyLoop_done (hpoll d) (by simpa using hidle)
  | busy hbusy hrest ih =>
      subst hd
      let r := dev.read (mdioTarget ((id.setWidth 8 : BitVec 8).setWidth 16)) 0 d.bus
      have hagain := ih (d := ({ d with bus := r.2 }.set 0 r.1).set 0 0x8000) rfl
      refine busyLoop_again (by simp) (hpoll d) (by simpa using hbusy) ?_
      simpa [VmData.set, r] using hagain

end Polls

/-- The switch behind the last poll of a command. -/
def SmiSwitch.finish (s : SmiSwitch) (c : BitVec 16) : SmiSwitch :=
  { s.perform c with pending := none, cmd := c &&& 0x7fff }

theorem SmiSwitch.finish_pending (s : SmiSwitch) (c : BitVec 16)
    (p : Option (BitVec 16 × Nat)) : { s with pending := p }.finish c = s.finish c := by
  unfold SmiSwitch.finish SmiSwitch.perform
  split_ifs <;> rfl

section Polling

variable {id : BitVec 16} (junk : BitVec 16)

/-- The device address of an operand made of the low byte of an address. -/
theorem target_setWidth8 (hid : id.toNat ≤ 31) :
    mdioTarget ((((id.setWidth 8 : BitVec 8).setWidth 32 : BitVec 32)).setWidth 16) = .c22 id := by
  have hsame : ((((id.setWidth 8 : BitVec 8).setWidth 32 : BitVec 32)).setWidth 16) = id := by
    apply BitVec.eq_of_toNat_eq
    simp only [BitVec.toNat_setWidth]
    omega
  rw [hsame]
  exact mdioTarget_of_lt (by omega)

/-- The address of a multi-chip switch is kept in eight bits. -/
theorem smiTarget_low (hid : id.toNat ≤ 31) :
    mdioTarget ((id.setWidth 8 : BitVec 8).setWidth 16) = .c22 id := by
  have htarget := target_setWidth8 hid
  rwa [BitVec.setWidth_setWidth_of_le _ (by omega)] at htarget

/-- The polls of a command end with its access. -/
theorem smiSwitch_polls (hid : id.toNat ≤ 31) {c : BitVec 16} {n : Nat} {s : SmiSwitch}
    (hpending : s.pending = some (c, n)) :
    MvlsPolls (smiSwitch id junk) id s (s.finish c) := by
  have hread : ∀ s, (smiSwitch id junk).read
      (mdioTarget ((id.setWidth 8 : BitVec 8).setWidth 16)) 0 s = s.readCmd := fun s => by
    simp [smiSwitch, smiTarget_low hid]
  induction n generalizing s with
  | zero =>
      have hcmd : s.readCmd = (c &&& 0x7fff, s.finish c) := by
        simp [SmiSwitch.readCmd, SmiSwitch.finish, hpending]
      have hidle : MvlsPolls (smiSwitch id junk) id s _ := .idle (by rw [hread, hcmd]; simp)
      rwa [hread, hcmd] at hidle
  | succ n ih =>
      have hcmd : s.readCmd = (c ||| 0x8000, { s with pending := some (c, n) }) := by
        simp [SmiSwitch.readCmd, hpending]
      have hrest := ih (s := { s with pending := some (c, n) }) rfl
      rw [SmiSwitch.finish_pending] at hrest
      exact .busy (by rw [hread, hcmd]; simp) (by rw [hread, hcmd]; exact hrest)

/-- The polling loop ends when the command does, with the access made and no
register but register 0 changed. -/
theorem waitCmd_runs (hid : id.toNat ≤ 31) {c : BitVec 16} {n : Nat}
    {d : VmData Words SmiSwitch} (hpending : d.bus.pending = some (c, n)) :
    ∃ v, Runs (smiSwitch id junk) (waitLoop (id.setWidth 8)) d
      (({ d with bus := d.bus.finish c }).set 0 v) :=
  ⟨0, mvlsPolls_runs (smiSwitch id junk) (smiSwitch_polls junk hid hpending) rfl⟩

end Polling

/-! ## The driver on both devices -/

/-- `mvls_read` appends its instructions. -/
theorem mvlsRead_append (id : BitVec 16) (prog : MdioProg) (reg : BitVec 32) :
    mvlsRead id prog reg = prog ++ mvlsRead id [] reg := by
  unfold mvlsRead mvlsReadTo
  split_ifs
  · rfl
  · simp [mdioProgPush, mvlsWaitCmd_append]

/-- `mvls_write` appends its instructions. -/
theorem mvlsWrite_append (id : BitVec 16) (prog : MdioProg) (reg val : BitVec 32) :
    mvlsWrite id prog reg val = prog ++ mvlsWrite id [] reg val := by
  unfold mvlsWrite
  split_ifs
  · rfl
  · simp [mdioProgPush, mvlsWaitCmd_append]

/-- A read takes at most eight instructions. -/
theorem mvlsRead_length (id : BitVec 16) (reg : BitVec 32) : (mvlsRead id [] reg).length ≤ 8 := by
  unfold mvlsRead mvlsReadTo
  split_ifs <;> simp [mdioProgPush, mvlsWaitCmd_append, waitLoop]

/-- A write takes at most eight instructions. -/
theorem mvlsWrite_length (id : BitVec 16) (reg val : BitVec 32) :
    (mvlsWrite id [] reg val).length ≤ 8 := by
  unfold mvlsWrite
  split_ifs <;> simp [mdioProgPush, mvlsWaitCmd_append, waitLoop]

/-- The bus address that single-chip addressing uses for a register. -/
theorem directAddr_eq {reg : BitVec 32} (h : SwitchReg reg) :
    directAddr (mdioTarget ((((reg >>> 16).setWidth 16 : BitVec 16).setWidth 32 : BitVec 32).setWidth
      16)) ((reg &&& 0xffff).setWidth 16) = some (switchAddr reg) := by
  obtain ⟨hport, hreg, hlow⟩ := h.parts
  have hsame : (((reg >>> 16).setWidth 16 : BitVec 16).setWidth 32 : BitVec 32).setWidth 16 =
      ((reg >>> 16).setWidth 16 : BitVec 16) := by
    apply BitVec.eq_of_toNat_eq
    simp only [BitVec.toNat_setWidth] at hport ⊢
    omega
  have hreg' : ((reg &&& 0xffff).setWidth 16 : BitVec 16).toNat < 32 := by
    rw [BitVec.toNat_setWidth]
    omega
  rw [hsame, mdioTarget_of_lt (by omega)]
  simp only [directAddr]
  rw [if_pos ⟨by omega, hreg'⟩, hlow]
  simp only [switchAddr, Option.some.injEq, Prod.mk.injEq]
  exact ⟨BitVec.setWidth_setWidth_of_le _ (by omega), BitVec.setWidth_setWidth_of_le _ (by omega)⟩

/-- Single-chip addressing meets the contract. -/
def directAccess : RegAccess directSwitch (mvlsDriver 0) (BitVec 5 × BitVec 5) where
  valid := SwitchReg
  addr := switchAddr
  rep ω ω' := ω = ω'
  store o regs := o.value regs
  read_append := mvlsRead_append 0
  write_append := mvlsWrite_append 0
  read_length := mvlsRead_length 0
  write_length := mvlsWrite_length 0
  read_runs := by
    rintro reg d ω hreg rfl
    have hrun := Runs.read directSwitch d
      (decodeRi_immArg (((reg >>> 16).setWidth 16 : BitVec 16).setWidth 32))
      (decodeRi_immArg (reg &&& 0xffff)) 0
    have hread : ∀ ω, directSwitch.read (mdioTarget ((((reg >>> 16).setWidth 16 : BitVec 16).setWidth
        32 : BitVec 32).setWidth 16)) ((reg &&& 0xffff).setWidth 16) ω =
        (ω (switchAddr reg), ω) := fun ω => by
      simp only [directSwitch, directAddr_eq hreg]
    simp only [Operand.eval_imm, hread] at hrun
    exact ⟨_, hrun, ⟨rfl, rfl, rfl⟩, rfl, rfl⟩
  write_runs := by
    rintro reg d ω hreg rfl o
    have hrun := Runs.write directSwitch d
      (decodeRi_immArg (((reg >>> 16).setWidth 16 : BitVec 16).setWidth 32))
      (decodeRi_immArg (reg &&& 0xffff)) o.decode
    have hwrite : ∀ val ω, directSwitch.write (mdioTarget ((((reg >>> 16).setWidth 16 :
        BitVec 16).setWidth 32 : BitVec 32).setWidth 16)) ((reg &&& 0xffff).setWidth 16) val ω =
        Function.update ω (switchAddr reg) val := fun val ω => by
      simp only [directSwitch, directAddr_eq hreg]
    simp only [Operand.eval_imm, hwrite] at hrun
    exact ⟨_, hrun, ⟨rfl, rfl, rfl⟩, rfl⟩

/-- The fields of the command words of the driver. -/
theorem mvlsMultiCmd_fields (port reg : BitVec 8) (hport : port.toNat ≤ 31) (hreg : reg.toNat ≤ 31)
    (write : Bool) :
    smiStarts (mvlsMultiCmd port reg write) ∧
      smiOp (mvlsMultiCmd port reg write) = (if write then 1 else 2) ∧
      smiAddr (mvlsMultiCmd port reg write) = (port.setWidth 5, reg.setWidth 5) := by
  have hall : ∀ (p r : Fin 32) (w : Bool),
      smiStarts (mvlsMultiCmd (BitVec.ofNat 8 p) (BitVec.ofNat 8 r) w) ∧
        smiOp (mvlsMultiCmd (BitVec.ofNat 8 p) (BitVec.ofNat 8 r) w) = (if w then 1 else 2) ∧
        smiAddr (mvlsMultiCmd (BitVec.ofNat 8 p) (BitVec.ofNat 8 r) w) =
          ((BitVec.ofNat 8 p).setWidth 5, (BitVec.ofNat 8 r).setWidth 5) := by
    decide +kernel
  have h := hall ⟨port.toNat, by omega⟩ ⟨reg.toNat, by omega⟩ write
  simpa only [BitVec.ofNat_toNat, BitVec.setWidth_eq] using h

/-- The command word of an access to a register. -/
def smiWord (reg : BitVec 32) (write : Bool) : BitVec 16 :=
  mvlsMultiCmd (((reg >>> 16).setWidth 16 : BitVec 16).setWidth 8) ((reg &&& 0xffff).setWidth 8) write

/-- The command word starts the operation on the register. -/
theorem smiWord_fields {reg : BitVec 32} (h : SwitchReg reg) (write : Bool) :
    smiStarts (smiWord reg write) ∧ smiOp (smiWord reg write) = (if write then 1 else 2) ∧
      smiAddr (smiWord reg write) = switchAddr reg := by
  obtain ⟨hport, hreg, hlow⟩ := h.parts
  have hfields := mvlsMultiCmd_fields (((reg >>> 16).setWidth 16 : BitVec 16).setWidth 8)
    ((reg &&& 0xffff).setWidth 8) (by rw [BitVec.toNat_setWidth]; omega)
    (by rw [BitVec.toNat_setWidth]; omega) write
  refine ⟨hfields.1, hfields.2.1, hfields.2.2.trans ?_⟩
  simp only [switchAddr, Prod.mk.injEq]
  constructor
  · rw [BitVec.setWidth_setWidth_of_le _ (by omega), BitVec.setWidth_setWidth_of_le _ (by omega)]
  · have hsplit := congrArg (BitVec.setWidth 5) hlow
    rw [BitVec.setWidth_setWidth_of_le _ (by omega), BitVec.setWidth_setWidth_of_le _ (by omega)]
      at hsplit
    rw [BitVec.setWidth_setWidth_of_le _ (by omega), hsplit]

section Smi

variable {id : BitVec 16} (junk : BitVec 16)

/-- The device address of the operand made of an address. -/
theorem target_setWidth32 (hid : id.toNat ≤ 31) :
    mdioTarget ((id.setWidth 32 : BitVec 32).setWidth 16) = .c22 id := by
  have hsame : ((id.setWidth 32 : BitVec 32).setWidth 16) = id := by
    apply BitVec.eq_of_toNat_eq
    simp only [BitVec.toNat_setWidth]
    omega
  rw [hsame]
  exact mdioTarget_of_lt (by omega)

/-- Start a command on an idle switch and poll until it is over. -/
theorem command_runs (hid : id.toNat ≤ 31) {reg : BitVec 32} (hreg : SwitchReg reg) (write : Bool)
    {d : VmData Words SmiSwitch} (hidle : d.bus.pending = none) :
    ∃ (v : BitVec 16) (s : SmiSwitch), Runs (smiSwitch id junk)
        ([insn .write (immArg (id.setWidth 32)) (immArg mvlsCmd)
          (immArg ((smiWord reg write).setWidth 32))] ++ waitLoop (id.setWidth 8)) d
        (({ d with bus := s }).set 0 v) ∧
      s.pending = none ∧
      s.regs = (if write then Function.update d.bus.regs (switchAddr reg) d.bus.data
        else d.bus.regs) ∧
      s.data = (if write then d.bus.data else d.bus.regs (switchAddr reg)) := by
  obtain ⟨hstarts, hop, haddr⟩ := smiWord_fields hreg write
  have hstart := Runs.write (smiSwitch id junk) d
    (decodeRi_immArg (id.setWidth 32)) (decodeRi_immArg mvlsCmd)
    (decodeRi_immArg ((smiWord reg write).setWidth 32))
  have hcmd : (mvlsCmd.setWidth 16 : BitVec 16) = 0 := rfl
  have hword : ((smiWord reg write).setWidth 32 : BitVec 32).setWidth 16 = smiWord reg write := by
    rw [BitVec.setWidth_setWidth_of_le _ (by omega), BitVec.setWidth_eq]
  have hwrite : (smiSwitch id junk).write (.c22 id) 0 (smiWord reg write) d.bus =
      { d.bus with
        pending := some (smiWord reg write, d.bus.polls 0)
        polls := fun k => d.bus.polls (k + 1) } := by
    simp [smiSwitch, SmiSwitch.writeCmd, hidle, hstarts]
  simp only [Operand.eval_imm, target_setWidth32 hid, hcmd, hword, hwrite] at hstart
  let d₁ : VmData Words SmiSwitch := { d with bus := { d.bus with
    pending := some (smiWord reg write, d.bus.polls 0)
    polls := fun k => d.bus.polls (k + 1) } }
  obtain ⟨v, hwait⟩ := waitCmd_runs junk hid (d := d₁) rfl
  refine ⟨v, _, hstart.append hwait, ?_, ?_, ?_⟩
  · rfl
  · cases write <;> simp [d₁, SmiSwitch.finish, SmiSwitch.perform, hop, haddr]
  · cases write <;> simp [d₁, SmiSwitch.finish, SmiSwitch.perform, hop, haddr]

/-- A read behind a multi-chip switch: the command, the wait and the data. -/
theorem mvlsRead_smi (hid : id ≠ 0) (reg : BitVec 32) :
    mvlsRead id [] reg =
      ([insn .write (immArg (id.setWidth 32)) (immArg mvlsCmd)
        (immArg ((smiWord reg false).setWidth 32))] ++ waitLoop (id.setWidth 8)) ++
      [insn .read (immArg (id.setWidth 32)) (immArg mvlsData) (regArg 0)] := by
  unfold mvlsRead mvlsReadTo
  rw [if_neg hid]
  simp only [mdioProgPush, mvlsWaitCmd_append]
  rfl

/-- A write behind a multi-chip switch: the data, the command and the wait. -/
theorem mvlsWrite_smi (hid : id ≠ 0) (reg val : BitVec 32) :
    mvlsWrite id [] reg val =
      [insn .write (immArg (id.setWidth 32)) (immArg mvlsData) val] ++
      ([insn .write (immArg (id.setWidth 32)) (immArg mvlsCmd)
        (immArg ((smiWord reg true).setWidth 32))] ++ waitLoop (id.setWidth 8)) := by
  unfold mvlsWrite
  rw [if_neg hid]
  simp only [mdioProgPush, mvlsWaitCmd_append]
  rfl

/-- Multi-chip addressing meets the contract, for an idle switch. -/
def smiAccess (id junk : BitVec 16) (hid : 1 ≤ id.toNat ∧ id.toNat ≤ 31) :
    RegAccess (smiSwitch id junk) (mvlsDriver id) (BitVec 5 × BitVec 5) where
  valid := SwitchReg
  addr := switchAddr
  rep := SmiSwitch.Represents
  store o regs := o.value regs
  read_append := mvlsRead_append id
  write_append := mvlsWrite_append id
  read_length := mvlsRead_length id
  write_length := mvlsWrite_length id
  read_runs := by
    rintro reg d ω hreg ⟨hidle, rfl⟩
    have hne : id ≠ 0 := fun h => by simp [h] at hid
    obtain ⟨v, s, hrun, hidle', hregs, hdata⟩ :=
      command_runs junk hid.2 hreg false hidle
    have hread := Runs.read (smiSwitch id junk) (({ d with bus := s }).set 0 v)
      (decodeRi_immArg (id.setWidth 32)) (decodeRi_immArg mvlsData) 0
    have hreg1 : (mvlsData.setWidth 16 : BitVec 16) = 1 := rfl
    have hval : (smiSwitch id junk).read (.c22 id) 1 s = (s.data, s) := by
      simp [smiSwitch, hidle']
    simp only [Operand.eval_imm, target_setWidth32 hid.2, hreg1, VmData.set_bus, hval] at hread
    have hall := hrun.append hread
    rw [← mvlsRead_smi hne] at hall
    refine ⟨_, hall, ⟨rfl, rfl, rfl⟩, ?_, hidle', ?_⟩
    · simpa using hdata
    · simpa using hregs
  write_runs := by
    rintro reg d ω hreg ⟨hidle, rfl⟩ o
    have hne : id ≠ 0 := fun h => by simp [h] at hid
    have hput := Runs.write (smiSwitch id junk) d
      (decodeRi_immArg (id.setWidth 32)) (decodeRi_immArg mvlsData) o.decode
    have hreg1 : (mvlsData.setWidth 16 : BitVec 16) = 1 := rfl
    have hval : (smiSwitch id junk).write (.c22 id) 1 (o.operand.eval d.regs) d.bus =
        { d.bus with data := o.operand.eval d.regs } := by
      simp [smiSwitch, hidle]
    simp only [Operand.eval_imm, target_setWidth32 hid.2, hreg1, hval] at hput
    obtain ⟨v, s, hrun, hidle', hregs, -⟩ :=
      command_runs junk hid.2 hreg true
        (d := { d with bus := { d.bus with data := o.operand.eval d.regs } }) hidle
    have hall := hput.append hrun
    rw [← mvlsWrite_smi hne] at hall
    exact ⟨_, hall, ⟨rfl, rfl, rfl⟩, hidle', hregs⟩

end Smi

/-! ## Agreement -/

/-- For every register that the client accepts and every switch state, the raw
operations emit the same words and leave the same registers in single-chip
addressing and in multi-chip addressing, however often each command is polled,
and so do the fragments at any position of a longer program. -/
theorem mvls_addressing_agrees (id : BitVec 16) (hid : 1 ≤ id.toNat ∧ id.toNat ≤ 31)
    (junk : BitVec 16) (arg : CStr) (range : BitVec 32 × BitVec 32)
    (hreg : mvlsParseReg (some arg) false = .ok range) (ω : SwitchRegs) (s : SmiSwitch)
    (hs : s.Represents ω) :
    (∀ write : Option (BitVec 32 × BitVec 32),
      (mdioNlEval (mdioCommonRawProg (mvlsDriver 0) range.1 write) directSwitch.bus
          quietHost).Halts (.entry [] ω)
        (.returned .progEnd 0 (RegAccess.rawWords ω (switchAddr range.1) write)
          (RegAccess.rawRegs ω (switchAddr range.1) write)) ∧
      ∃ s', (mdioNlEval (mdioCommonRawProg (mvlsDriver id) range.1 write)
          (smiSwitch id junk).bus quietHost).Halts (.entry [] s)
        (.returned .progEnd 0 (RegAccess.rawWords ω (switchAddr range.1) write) s') ∧
        s'.Represents (RegAccess.rawRegs ω (switchAddr range.1) write)) ∧
    RegAccess.AnyPosition directSwitch (mvlsDriver 0) (fun ω ω' => ω = ω') range.1
      (switchAddr range.1) ∧
    RegAccess.AnyPosition (smiSwitch id junk) (mvlsDriver id) SmiSwitch.Represents range.1
      (switchAddr range.1) := by
  obtain ⟨-, port, r, hport, hr, heq⟩ := mvlsParseReg_ok hreg
  have hvalid : SwitchReg range.1 := ⟨port, r, hport, hr, heq⟩
  have hdirect : directAccess.Faithful := fun _ _ => rfl
  have hsmi : (smiAccess id junk hid).Faithful := fun _ _ => rfl
  refine ⟨fun write => ⟨?_, ?_⟩, ?_, ?_⟩
  · obtain ⟨ω', hhalts, hω'⟩ := directAccess.raw_halts _ hdirect hvalid (rfl : ω = ω) write
    have heq' : ω' = RegAccess.rawRegs ω (switchAddr range.1) write := hω'
    rw [heq'] at hhalts
    exact hhalts
  · exact (smiAccess id junk hid).raw_halts _ hsmi hvalid hs write
  · exact directAccess.anyPosition hdirect hvalid
  · exact (smiAccess id junk hid).anyPosition hsmi hvalid

/-- The hypotheses are met by register 28 of global 1 on switch 4, whose
commands take 3, 4, 5, … polls. -/
theorem mvls_addressing_agrees_g1_28 :
    RegAccess.AnyPosition (smiSwitch 4 0xdead) (mvlsDriver 4) SmiSwitch.Represents 0x1b001c
      (27, 28) :=
  (mvls_addressing_agrees 4 (by decide) 0xdead "g1:28".toList (0x1b001c, 0) rfl
    (fun _ => 0xffff) ⟨fun _ => 0xffff, 0, 0, none, fun k => k + 3⟩ ⟨rfl, rfl⟩).2.2

end MdioTools.Device
