import MdioTools.Client.Parse
import MdioTools.Device.RegAccess

/-!
# Clause 45 registers over Clause 45 and over Clause 22

The registers of an MMD are reached by Clause 45 transactions, or through the
Clause 22 registers 13 and 14 of the same port: register 13 holds a function and
the MMD, and register 14 is the address or the data of that MMD, as the function
says.  Both ways are operations of one bus here, so that the `mmd` and the
`mmd-c22` driver act on the same registers.

Main results:

- Definition {lit}`mmdBus`: the bus, with the access model of 802.3.
- Definitions {lit}`mmdAccess` and {lit}`mmdC22Access`: both drivers meet the
  contract for the same registers.
-/

namespace MdioTools.Device

open Client Kernel Library

/-! ## The bus -/

/-- The registers of all MMDs, by port, MMD and register. -/
abbrev MmdRegs : Type :=
  BitVec 5 × BitVec 5 × BitVec 16 → BitVec 16

/-- The registers, register 13 of each port, and the address register of each
MMD. -/
structure MmdState where
  regs : MmdRegs
  ctrl : BitVec 5 → BitVec 16
  addr : BitVec 5 × BitVec 5 → BitVec 16

/-- The functions of register 13. -/
inductive MmdFunction
  | address | data | dataIncBoth | dataIncWrite

/-- The function and the MMD in a value of register 13. -/
def mmdFunction (ctrl : BitVec 16) : MmdFunction :=
  match (ctrl >>> 14).toNat with
  | 0 => .address
  | 1 => .data
  | 2 => .dataIncBoth
  | _ => .dataIncWrite

def mmdDevad (ctrl : BitVec 16) : BitVec 5 :=
  ctrl.setWidth 5

/-- The address register behind an access, given whether it counts on. -/
def MmdState.count (s : MmdState) (a : BitVec 5 × BitVec 5) (inc : Bool) : MmdState :=
  if inc then { s with addr := Function.update s.addr a (s.addr a + 1) } else s

/-- A read of register 14 of a port. -/
def MmdState.read14 (s : MmdState) (port : BitVec 5) : BitVec 16 × MmdState :=
  let a := (port, mmdDevad (s.ctrl port))
  match mmdFunction (s.ctrl port) with
  | .address => (s.addr a, s)
  | .dataIncBoth => (s.regs (a.1, a.2, s.addr a), s.count a true)
  | .data | .dataIncWrite => (s.regs (a.1, a.2, s.addr a), s)

/-- A write of register 14 of a port. -/
def MmdState.write14 (s : MmdState) (port : BitVec 5) (val : BitVec 16) : MmdState :=
  let a := (port, mmdDevad (s.ctrl port))
  let store : MmdState := { s with regs := Function.update s.regs (a.1, a.2, s.addr a) val }
  match mmdFunction (s.ctrl port) with
  | .address => { s with addr := Function.update s.addr a val }
  | .data => store
  | .dataIncBoth | .dataIncWrite => store.count a true

/-- A bus of ports with MMDs.  The Clause 22 registers other than 13 and 14
are left out: they read as all ones. -/
def mmdBus : Device MmdState where
  read t reg s :=
    match t with
    | .c45 prtad devad => (s.regs (prtad.setWidth 5, devad.setWidth 5, reg), s)
    | .c22 port =>
        if 32 ≤ port.toNat then (BitVec.allOnes 16, s)
        else if reg = 13 then (s.ctrl (port.setWidth 5), s)
        else if reg = 14 then s.read14 (port.setWidth 5)
        else (BitVec.allOnes 16, s)
  write t reg val s :=
    match t with
    | .c45 prtad devad =>
        { s with regs := Function.update s.regs (prtad.setWidth 5, devad.setWidth 5, reg) val }
    | .c22 port =>
        if 32 ≤ port.toNat then s
        else if reg = 13 then { s with ctrl := Function.update s.ctrl (port.setWidth 5) val }
        else if reg = 14 then s.write14 (port.setWidth 5) val
        else s

/-! ## Clause 45 addresses -/

/-- The address word of a port and an MMD. -/
structure C45Id where
  id : BitVec 16
  prtad : BitVec 16
  devad : BitVec 16
  prtad_le : prtad.toNat ≤ 31
  devad_le : devad.toNat ≤ 31
  id_eq : id = mdioPhyIdC45Word prtad devad

/-- The fields of an address word, as the kernel and the client take them. -/
theorem C45Id.fields (c : C45Id) :
    mdioTarget c.id = .c45 c.prtad c.devad ∧ (mmdC22Prtad c.id).setWidth 16 = c.prtad ∧
      (mmdC22Devad c.id).setWidth 16 = c.devad := by
  have hall : ∀ p d : Fin 32,
      let id := mdioPhyIdC45Word (BitVec.ofNat 16 p) (BitVec.ofNat 16 d)
      mdioTarget id = .c45 (BitVec.ofNat 16 p) (BitVec.ofNat 16 d) ∧
        (mmdC22Prtad id).setWidth 16 = BitVec.ofNat 16 p ∧
        (mmdC22Devad id).setWidth 16 = BitVec.ofNat 16 d := by
    decide +kernel
  have h := hall ⟨c.prtad.toNat, by have := c.prtad_le; omega⟩
    ⟨c.devad.toNat, by have := c.devad_le; omega⟩
  simpa only [BitVec.ofNat_toNat, BitVec.setWidth_eq, ← c.id_eq] using h

/-- The addresses that the `mmd` commands accept. -/
theorem exists_c45Id {arg : CStr} {id : BitVec 16} (h : mdioParseDev arg true = .ok id)
    (hc45 : id &&& mdioPhyIdC45 ≠ 0) : ∃ c : C45Id, c.id = id := by
  rcases mdioParseDev_ok_iff.mp h with ⟨-, hle, rfl⟩ | ⟨-, after, -, -, hp, hd, rfl⟩
  · have hlt : ((strtoul arg).value.setWidth 16 : BitVec 16).getLsbD 15 = false := by
      apply Nat.testBit_lt_two_pow
      rw [BitVec.toNat_setWidth]
      omega
    have htop : mdioPhyIdC45 = BitVec.twoPow 16 15 := by decide
    rw [htop, BitVec.and_twoPow, hlt] at hc45
    exact absurd rfl hc45
  · refine ⟨⟨_, (strtoul arg).value.setWidth 16, (strtoul after).value.setWidth 16, ?_, ?_, rfl⟩,
      rfl⟩ <;>
    · rw [BitVec.toNat_setWidth]
      omega

variable (c : C45Id)

/-- The register that a client's register number stands for. -/
def mmdAddr (reg : BitVec 32) : BitVec 5 × BitVec 5 × BitVec 16 :=
  (c.prtad.setWidth 5, c.devad.setWidth 5, reg.setWidth 16)

/-- The state represents the MMD registers, whatever registers 13 and the
address registers hold. -/
def MmdState.Represents (s : MmdState) (ω : MmdRegs) : Prop :=
  s.regs = ω

/-! ## The `mmd` driver -/

/-- Direct access meets the contract. -/
def mmdAccess : RegAccess mmdBus (phyDriver c.id) (BitVec 5 × BitVec 5 × BitVec 16) where
  valid _ := True
  addr := mmdAddr c
  rep := MmdState.Represents
  store o regs := o.value regs
  read_append _ _ := rfl
  write_append _ _ _ := rfl
  read_length _ := by simp [phyDriver, phyRead, mdioProgPush]
  write_length _ _ := by simp [phyDriver, phyWrite, mdioProgPush]
  read_runs := by
    rintro reg d ω - rfl
    have hrun := Runs.read mmdBus d (decodeRi_immArg (c.id.setWidth 32))
      (decodeRi_immArg reg) 0
    simp only [Operand.eval_imm, setWidth_setWidth32, c.fields.1] at hrun
    exact ⟨_, hrun, ⟨rfl, rfl, rfl⟩, rfl, rfl⟩
  write_runs := by
    rintro reg d ω - rfl o
    have hrun := Runs.write mmdBus d (decodeRi_immArg (c.id.setWidth 32))
      (decodeRi_immArg reg) o.decode
    simp only [Operand.eval_imm, setWidth_setWidth32, c.fields.1] at hrun
    exact ⟨_, hrun, ⟨rfl, rfl, rfl⟩, rfl⟩

/-! ## The `mmd-c22` driver -/

/-- The state behind the address phase: register 13 selects data access to the
MMD, and the address register of the MMD holds the register number. -/
def MmdState.addressed (s : MmdState) (reg : BitVec 16) : MmdState :=
  { s with
    ctrl := Function.update s.ctrl (c.prtad.setWidth 5) (c.devad ||| 0x4000#16)
    addr := Function.update s.addr (c.prtad.setWidth 5, c.devad.setWidth 5) reg }

/-- What register 13 holds in the two phases. -/
theorem C45Id.ctrl (c : C45Id) :
    (mmdFunction c.devad = .address ∧ mmdDevad c.devad = c.devad.setWidth 5) ∧
      mmdFunction (c.devad ||| 0x4000#16) = .data ∧
      mmdDevad (c.devad ||| 0x4000#16) = c.devad.setWidth 5 := by
  have hall : ∀ d : Fin 32, ((BitVec.ofNat 16 d >>> 14).toNat = 0 ∧
      mmdDevad (BitVec.ofNat 16 d) = (BitVec.ofNat 16 d).setWidth 5) ∧
      ((BitVec.ofNat 16 d ||| 0x4000#16) >>> 14).toNat = 1 ∧
      mmdDevad (BitVec.ofNat 16 d ||| 0x4000#16) = (BitVec.ofNat 16 d).setWidth 5 := by
    decide +kernel
  have h := hall ⟨c.devad.toNat, by have := c.devad_le; omega⟩
  simp only [BitVec.ofNat_toNat, BitVec.setWidth_eq] at h
  obtain ⟨⟨hzero, haddress⟩, hone, hdata⟩ := h
  refine ⟨⟨?_, haddress⟩, ?_, hdata⟩
  · simp only [mmdFunction, hzero]
  · simp only [mmdFunction, hone]

theorem mmdC22Address_append (id : BitVec 16) (prog : MdioProg) (reg : BitVec 32) :
    mmdC22Address id prog reg = prog ++ mmdC22Address id [] reg := by
  simp [mmdC22Address, mdioProgPush]

/-- The port as the operand of the driver gives it. -/
theorem mmdC22_target :
    mdioTarget (((mmdC22Prtad c.id).setWidth 32 : BitVec 32).setWidth 16) = .c22 c.prtad := by
  rw [BitVec.setWidth_setWidth_of_le _ (by omega), c.fields.2.1]
  exact mdioTarget_of_lt (by have := c.prtad_le; omega)

/-- The address phase. -/
theorem mmdC22Address_runs (d : VmData Words MmdState) (reg : BitVec 32) :
    Runs mmdBus (mmdC22Address c.id [] reg) d
      { d with bus := d.bus.addressed c (reg.setWidth 16) } := by
  obtain ⟨-, -, hdevad⟩ := c.fields
  obtain ⟨⟨hfun, hmmd⟩, -⟩ := c.ctrl
  have hport : ¬32 ≤ c.prtad.toNat := by have := c.prtad_le; omega
  have hwrite : ∀ (reg val : BitVec 32) (d : VmData Words MmdState),
      Runs mmdBus [insn .write (immArg ((mmdC22Prtad c.id).setWidth 32)) (immArg reg)
        (immArg val)] d
        { d with bus := mmdBus.write (.c22 c.prtad) (reg.setWidth 16) (val.setWidth 16) d.bus } := by
    intro reg val d
    have hrun := Runs.write mmdBus d
      (decodeRi_immArg ((mmdC22Prtad c.id).setWidth 32)) (decodeRi_immArg reg)
      (decodeRi_immArg val)
    simp only [Operand.eval_imm, mmdC22_target c] at hrun
    exact hrun
  let ctrl : BitVec 16 := (mmdC22Devad c.id).setWidth 16
  let ctrl' : BitVec 16 := ctrl ||| 1 <<< 14
  have hphases := ((hwrite 13 (ctrl.setWidth 32) d).append (hwrite 14 reg _)).append
    (hwrite 13 (ctrl'.setWidth 32) _)
  have hctrl' : ctrl' = c.devad ||| 0x4000#16 := by
    simp only [ctrl', ctrl, hdevad]
    rfl
  have hdata : mmdBus.write (.c22 c.prtad) 13 ctrl' (mmdBus.write (.c22 c.prtad) 14
      (reg.setWidth 16) (mmdBus.write (.c22 c.prtad) 13 ctrl d.bus)) =
      d.bus.addressed c (reg.setWidth 16) := by
    simp [mmdBus, hport, MmdState.write14, hfun, hmmd, MmdState.addressed, hctrl', ctrl, hdevad]
  simp only [setWidth_setWidth32] at hphases
  rw [← hdata]
  exact hphases

/-- What the bus does in the data phase. -/
theorem addressed_access (s : MmdState) (reg : BitVec 16) :
    mmdBus.read (.c22 c.prtad) 14 (s.addressed c reg) =
        (s.regs (c.prtad.setWidth 5, c.devad.setWidth 5, reg), s.addressed c reg) ∧
      ∀ val, (mmdBus.write (.c22 c.prtad) 14 val (s.addressed c reg)).regs =
        Function.update s.regs (c.prtad.setWidth 5, c.devad.setWidth 5, reg) val := by
  obtain ⟨-, hfun, hmmd⟩ := c.ctrl
  have hport : ¬32 ≤ c.prtad.toNat := by have := c.prtad_le; omega
  constructor
  · simp [mmdBus, hport, MmdState.read14, MmdState.addressed, hfun, hmmd]
  · intro val
    simp [mmdBus, hport, MmdState.write14, MmdState.addressed, hfun, hmmd]

/-- Indirect access meets the contract for the same registers. -/
def mmdC22Access : RegAccess mmdBus (mmdC22Driver c.id) (BitVec 5 × BitVec 5 × BitVec 16) where
  valid _ := True
  addr := mmdAddr c
  rep := MmdState.Represents
  store o regs := o.value regs
  read_append prog reg := by
    simp only [mmdC22Driver, mmdC22Read, mdioProgPush]
    rw [mmdC22Address_append, List.append_assoc]
  write_append prog reg val := by
    simp only [mmdC22Driver, mmdC22Write, mdioProgPush]
    rw [mmdC22Address_append, List.append_assoc]
  read_length _ := by simp [mmdC22Driver, mmdC22Read, mmdC22Address, mdioProgPush]
  write_length _ _ := by simp [mmdC22Driver, mmdC22Write, mmdC22Address, mdioProgPush]
  read_runs := by
    rintro reg d ω - rfl
    have hread := Runs.read mmdBus { d with bus := d.bus.addressed c (reg.setWidth 16) }
      (decodeRi_immArg ((mmdC22Prtad c.id).setWidth 32)) (decodeRi_immArg 14) 0
    have h14 : ((14 : BitVec 32).setWidth 16 : BitVec 16) = 14 := rfl
    simp only [Operand.eval_imm, mmdC22_target c, h14, (addressed_access c _ _).1] at hread
    exact ⟨_, (mmdC22Address_runs c d reg).append hread, ⟨rfl, rfl, rfl⟩, rfl, rfl⟩
  write_runs := by
    rintro reg d ω - rfl o
    have hwrite := Runs.write mmdBus { d with bus := d.bus.addressed c (reg.setWidth 16) }
      (decodeRi_immArg ((mmdC22Prtad c.id).setWidth 32)) (decodeRi_immArg 14) o.decode
    have h14 : ((14 : BitVec 32).setWidth 16 : BitVec 16) = 14 := rfl
    simp only [Operand.eval_imm, mmdC22_target c, h14] at hwrite
    exact ⟨_, (mmdC22Address_runs c d reg).append hwrite, ⟨rfl, rfl, rfl⟩,
      (addressed_access c _ _).2 _⟩

end MdioTools.Device
