import MdioTools.Device.Mmd
import MdioTools.Device.Paged
import MdioTools.Device.Switch
import MdioTools.Device.XrsSwitch

/-!
# Driver-level accesses on any device

What the read and the write hook of each driver do to a device, transaction by
transaction and without a word about what the device makes of them.  An access
through the command register of a LinkStreet switch polls it, so it is a
relation; the other accesses are functions of the device.

Main results:

- Definition {lit}`KnownDriver`: the drivers of the client.
- Definitions {lit}`KnownDriver.BusRead` and {lit}`KnownDriver.BusWrite`: the
  accesses.
- Theorems {lit}`KnownDriver.read_runs` and {lit}`KnownDriver.write_runs`: the
  fragments of the hooks make these accesses, and keep the registers that the
  common operations use.
- Definition {lit}`ReadsEach`: one access after another.
-/

namespace MdioTools.Device

open Client Kernel Library

variable {β : Type} (dev : Device β)

/-! ## The accesses of each driver -/

/-- The address phase of `mmd-c22`: select the MMD and its register. -/
def mmdC22BusAddress (id : BitVec 16) (reg : BitVec 32) (b : β) : β :=
  let t := mdioTarget ((mmdC22Prtad id).setWidth 16)
  let ctrl : BitVec 16 := (mmdC22Devad id).setWidth 16
  dev.write t 13 (ctrl ||| 1 <<< 14) (dev.write t 14 (reg.setWidth 16) (dev.write t 13 ctrl b))

/-- The port and the register of a switch register number. -/
def mvlsBusPort (reg : BitVec 32) : BitVec 16 :=
  (reg >>> 16).setWidth 16

def mvlsBusReg (reg : BitVec 32) : BitVec 16 :=
  (reg &&& 0xffff).setWidth 16

/-- A switch register is read directly, or by a command that loads DATA. -/
def MvlsBusRead (id : BitVec 16) (reg : BitVec 32) (b : β) (v : BitVec 16) (b' : β) : Prop :=
  if id = 0 then dev.read (mdioTarget (mvlsBusPort reg)) (mvlsBusReg reg) b = (v, b')
  else ∃ b₁, MvlsPolls dev id (dev.write (mdioTarget id) 0 (smiWord reg false) b) b₁ ∧
    dev.read (mdioTarget id) 1 b₁ = (v, b')

/-- A switch register is written directly, or by a command that stores DATA. -/
def MvlsBusWrite (id : BitVec 16) (reg : BitVec 32) (val : BitVec 16) (b b' : β) : Prop :=
  if id = 0 then b' = dev.write (mdioTarget (mvlsBusPort reg)) (mvlsBusReg reg) val b
  else MvlsPolls dev id
    (dev.write (mdioTarget id) 0 (smiWord reg true) (dev.write (mdioTarget id) 1 val b)) b'

/-! ## The drivers of the client -/

/-- The drivers of the client, each with its device. -/
inductive KnownDriver
  | phy (id : BitVec 16)
  | mmdC22 (id : BitVec 16)
  | pphy (pdev : PphyDevice)
  | mvls (id : BitVec 16)
  | xrs (id : BitVec 16)

namespace KnownDriver

/-- The hooks of a driver. -/
def driver : KnownDriver → MdioDriver
  | phy id => phyDriver id
  | mmdC22 id => mmdC22Driver id
  | pphy pdev => pphyDriver pdev
  | mvls id => mvlsDriver id
  | xrs id => xrsDriver id

/-- A driver-level read: the value, and the device behind it. -/
def BusRead (dev : Device β) : KnownDriver → BitVec 32 → β → BitVec 16 → β → Prop
  | phy id, reg, b, v, b' => dev.read (mdioTarget id) (reg.setWidth 16) b = (v, b')
  | mmdC22 id, reg, b, v, b' =>
      dev.read (mdioTarget ((mmdC22Prtad id).setWidth 16)) 14 (mmdC22BusAddress dev id reg b) =
        (v, b')
  | pphy pdev, reg, b, v, b' =>
      let old := pphyBusEnter dev pdev (pphyPage reg) b
      let r := dev.read (mdioTarget pdev.id) (pphyReg reg) old.2
      v = r.1 ∧ b' = pphyBusLeave dev pdev (pphyPage reg) old.1 r.2
  | mvls id, reg, b, v, b' => MvlsBusRead dev id reg b v b'
  | xrs id, reg, b, v, b' =>
      let t := mdioTarget id
      dev.read t 0x14 (dev.write t 0x10 ((reg &&& 0xfffe).setWidth 16)
        (dev.write t 0x11 ((reg >>> 16).setWidth 16) b)) = (v, b')

/-- A driver-level write of a value. -/
def BusWrite (dev : Device β) : KnownDriver → BitVec 32 → BitVec 16 → β → β → Prop
  | phy id, reg, val, b, b' => b' = dev.write (mdioTarget id) (reg.setWidth 16) val b
  | mmdC22 id, reg, val, b, b' =>
      b' = dev.write (mdioTarget ((mmdC22Prtad id).setWidth 16)) 14 val
        (mmdC22BusAddress dev id reg b)
  | pphy pdev, reg, val, b, b' =>
      let old := pphyBusEnter dev pdev (pphyPage reg) b
      b' = pphyBusLeave dev pdev (pphyPage reg) old.1
        (dev.write (mdioTarget pdev.id) (pphyReg reg) val old.2)
  | mvls id, reg, val, b, b' => MvlsBusWrite dev id reg val b b'
  | xrs id, reg, val, b, b' =>
      let t := mdioTarget id
      b' = dev.write t 0x10 (((reg &&& 0xfffe) ||| 1).setWidth 16)
        (dev.write t 0x11 ((reg >>> 16).setWidth 16) (dev.write t 0x14 val b))

/-- The value that a write hook makes of its operand: the `xrs` driver takes the
operand word itself as an immediate. -/
def stored : KnownDriver → WriteOperand → Regs → BitVec 16
  | xrs _, o, regs => xrsStore o regs
  | _, o, regs => o.value regs

theorem relocates (drv : KnownDriver) : Relocates drv.driver := by
  cases drv with
  | phy id =>
      constructor <;> intros <;> simp [driver, phyDriver, phyRead, phyWrite, mdioProgPush]
  | mmdC22 id =>
      constructor <;> intros <;>
        simp [driver, mmdC22Driver, mmdC22Read, mmdC22Write, mmdC22Address, mdioProgPush]
  | pphy pdev =>
      constructor <;> intros <;>
        simp [driver, pphyDriver, pphyRead, pphyWrite, pphyEnter, pphyLeave, mdioProgPush]
  | mvls id =>
      exact ⟨mvlsRead_append id, mvlsWrite_append id, mvlsRead_length id, mvlsWrite_length id⟩
  | xrs id =>
      constructor <;> intros <;> simp [driver, xrsDriver, xrsRead, xrsWrite, mdioProgPush]

end KnownDriver

/-! ## The fragments -/

/-- The address phase of `mmd-c22`. -/
theorem mmdC22BusAddress_runs (d : VmData Words β) (id : BitVec 16) (reg : BitVec 32) :
    Runs dev (mmdC22Address id [] reg) d { d with bus := mmdC22BusAddress dev id reg d.bus } := by
  let prtad : BitVec 32 := (mmdC22Prtad id).setWidth 32
  let ctrl : BitVec 16 := (mmdC22Devad id).setWidth 16
  have hprtad : (prtad.setWidth 16 : BitVec 16) = (mmdC22Prtad id).setWidth 16 :=
    BitVec.setWidth_setWidth_of_le _ (by omega)
  have hphases := ((busPut_runs dev d prtad 13 (ctrl.setWidth 32)).append
    (busPut_runs dev _ prtad 14 reg)).append
    (busPut_runs dev _ prtad 13 ((ctrl ||| 1 <<< 14).setWidth 32))
  simp only [hprtad, setWidth_setWidth32] at hphases
  exact hphases

/-- Start a command and poll until it is over. -/
theorem mvlsBusCommand_runs {id : BitVec 16} {reg : BitVec 32} {write : Bool}
    {d : VmData Words β} {b' : β}
    (h : MvlsPolls dev id (dev.write (mdioTarget id) 0 (smiWord reg write) d.bus) b') :
    Runs dev ([insn .write (immArg (id.setWidth 32)) (immArg mvlsCmd)
      (immArg ((smiWord reg write).setWidth 32))] ++ waitLoop (id.setWidth 8)) d
      ({ d with bus := b' }.set 0 0) := by
  have hstart := busPut_runs dev d (id.setWidth 32) mvlsCmd ((smiWord reg write).setWidth 32)
  have hcmd : (mvlsCmd.setWidth 16 : BitVec 16) = 0 := rfl
  simp only [setWidth_setWidth32, hcmd] at hstart
  exact hstart.append (mvlsPolls_runs dev h rfl)

/-- A fragment keeps the emitted words and all registers but register 0. -/
structure Scratch {β : Type} (d d' : VmData Words β) : Prop where
  host : d'.host = d.host
  regs : ∀ r, r ≠ 0 → d'.regs r = d.regs r

theorem Scratch.keeps {d d' : VmData Words β} (h : Scratch d d') : Keeps d d' :=
  ⟨h.host, h.regs 6 (by decide), h.regs 7 (by decide)⟩

theorem Scratch.trans {d d' d'' : VmData Words β} (h : Scratch d d') (h' : Scratch d' d'') :
    Scratch d d'' :=
  ⟨h'.host.trans h.host, fun r hr => (h'.regs r hr).trans (h.regs r hr)⟩

/-- What a fragment leaves that has another bus state and register 0. -/
theorem Scratch.set (d : VmData Words β) (b : β) (v : BitVec 16) :
    Scratch d ({ d with bus := b }.set 0 v) :=
  ⟨rfl, fun _ hr => VmData.set_regs_of_ne { d with bus := b } hr v⟩

/-- A read of a switch register. -/
theorem mvlsRead_runs {id : BitVec 16} {reg : BitVec 32} {d : VmData Words β} {v : BitVec 16}
    {b' : β} (h : MvlsBusRead dev id reg d.bus v b') :
    Runs dev (mvlsRead id [] reg) d ({ d with bus := b' }.set 0 v) := by
  by_cases hid : id = 0
  · subst hid
    have hread := busRead_runs dev d ((mvlsBusPort reg).setWidth 32) (reg &&& 0xffff) 0
    rw [MvlsBusRead, if_pos rfl, mvlsBusReg] at h
    rw [setWidth_setWidth32, h] at hread
    exact hread
  · rw [MvlsBusRead, if_neg hid] at h
    obtain ⟨b₁, hpolls, hdata⟩ := h
    have hread := (mvlsBusCommand_runs dev hpolls).append
      (busRead_runs dev _ (id.setWidth 32) mvlsData 0)
    have hreg : (mvlsData.setWidth 16 : BitVec 16) = 1 := rfl
    rw [← mvlsRead_smi hid, setWidth_setWidth32, hreg, VmData.set_bus, hdata] at hread
    simpa [VmData.set] using hread

/-- A write of a switch register. -/
theorem mvlsWrite_runs {id : BitVec 16} {reg : BitVec 32} {d : VmData Words β} {a : BitVec 32}
    {A : Operand} (ha : decodeRi (a.setWidth 18) = some A) {b' : β}
    (h : MvlsBusWrite dev id reg (A.eval d.regs) d.bus b') :
    ∃ d', Runs dev (mvlsWrite id [] reg a) d d' ∧ Scratch d d' ∧ d'.bus = b' := by
  by_cases hid : id = 0
  · subst hid
    have hwrite := busWrite_runs dev d ((mvlsBusPort reg).setWidth 32) (reg &&& 0xffff) ha
    rw [MvlsBusWrite, if_pos rfl, mvlsBusReg] at h
    rw [setWidth_setWidth32] at hwrite
    exact ⟨_, hwrite, ⟨rfl, fun _ _ => rfl⟩, h.symm⟩
  · rw [MvlsBusWrite, if_neg hid] at h
    have hput := busWrite_runs dev d (id.setWidth 32) mvlsData ha
    have hreg : (mvlsData.setWidth 16 : BitVec 16) = 1 := rfl
    rw [setWidth_setWidth32, hreg] at hput
    have hwrite := hput.append (mvlsBusCommand_runs dev h)
    rw [← mvlsWrite_smi hid] at hwrite
    exact ⟨_, hwrite, .set d b' 0, rfl⟩

namespace KnownDriver

variable {dev} {reg : BitVec 32} {d : VmData Words β} {b' : β}

/-- The read hook makes the access, brings its value to register 0 and keeps the
registers that the common operations use. -/
theorem read_runs {drv : KnownDriver} {v : BitVec 16} (h : drv.BusRead dev reg d.bus v b') :
    ∃ d', Runs dev (drv.driver.read [] reg) d d' ∧ Keeps d d' ∧ d'.regs 0 = v ∧ d'.bus = b' := by
  cases drv with
  | phy id =>
      have hread := busRead_runs dev d (id.setWidth 32) reg 0
      rw [setWidth_setWidth32, show dev.read _ _ d.bus = (v, b') from h] at hread
      exact ⟨_, hread, ⟨rfl, rfl, rfl⟩, rfl, rfl⟩
  | mmdC22 id =>
      have hread := (mmdC22BusAddress_runs dev d id reg).append
        (busRead_runs dev _ ((mmdC22Prtad id).setWidth 32) 14 0)
      have hprtad : (((mmdC22Prtad id).setWidth 32 : BitVec 32).setWidth 16 : BitVec 16) =
          (mmdC22Prtad id).setWidth 16 := BitVec.setWidth_setWidth_of_le _ (by omega)
      have hreg : ((14 : BitVec 32).setWidth 16 : BitVec 16) = 14 := rfl
      rw [hprtad, hreg, show dev.read _ _ (mmdC22BusAddress dev id reg d.bus) = (v, b') from h]
        at hread
      exact ⟨_, hread, ⟨rfl, rfl, rfl⟩, rfl, rfl⟩
  | pphy pdev =>
      obtain ⟨rfl, rfl⟩ := h
      have hread := (pphyBusEnter_runs dev d pdev (pphyPage reg)).append
        ((busRead_runs dev _ (pdev.id.setWidth 32) (reg &&& 0x1f) 0).append
          (pphyBusLeave_runs dev _ pdev (pphyPage reg)))
      rw [← pphyRead_nil, setWidth_setWidth32] at hread
      exact ⟨_, hread, ⟨rfl, rfl, rfl⟩, rfl, rfl⟩
  | mvls id =>
      have hread := mvlsRead_runs dev (show MvlsBusRead dev id reg d.bus v b' from h)
      exact ⟨_, hread, (Scratch.set d b' v).keeps, rfl, rfl⟩
  | xrs id =>
      have hread := ((busPut_runs dev d (id.setWidth 32) xrsIba1
          (((reg >>> 16).setWidth 16 : BitVec 16).setWidth 32)).append
        (busPut_runs dev _ (id.setWidth 32) xrsIba0
          (((reg &&& 0xfffe).setWidth 16 : BitVec 16).setWidth 32))).append
        (busRead_runs dev _ (id.setWidth 32) xrsIbd 0)
      simp only [setWidth_setWidth32] at hread
      rw [show dev.read _ (xrsIbd.setWidth 16) (dev.write _ (xrsIba0.setWidth 16) _
        (dev.write _ (xrsIba1.setWidth 16) _ d.bus)) = (v, b') from h] at hread
      exact ⟨_, hread, ⟨rfl, rfl, rfl⟩, rfl, rfl⟩

/-- The write hook makes the access with the value that it takes from its
operand, and keeps the registers that the common operations use. -/
theorem write_runs {drv : KnownDriver} {o : WriteOperand}
    (h : drv.BusWrite dev reg (drv.stored o d.regs) d.bus b') :
    ∃ d', Runs dev (drv.driver.write [] reg o.word) d d' ∧ Keeps d d' ∧ d'.bus = b' := by
  cases drv with
  | phy id =>
      have hwrite := busWrite_runs dev d (id.setWidth 32) reg o.decode
      rw [setWidth_setWidth32, show dev.write _ _ (o.operand.eval d.regs) d.bus = b' from h.symm]
        at hwrite
      exact ⟨_, hwrite, ⟨rfl, rfl, rfl⟩, rfl⟩
  | mmdC22 id =>
      have hwrite := (mmdC22BusAddress_runs dev d id reg).append
        (busWrite_runs dev _ ((mmdC22Prtad id).setWidth 32) 14 o.decode)
      have hprtad : (((mmdC22Prtad id).setWidth 32 : BitVec 32).setWidth 16 : BitVec 16) =
          (mmdC22Prtad id).setWidth 16 := BitVec.setWidth_setWidth_of_le _ (by omega)
      have hreg : ((14 : BitVec 32).setWidth 16 : BitVec 16) = 14 := rfl
      rw [hprtad, hreg] at hwrite
      exact ⟨_, hwrite, ⟨rfl, rfl, rfl⟩, h.symm⟩
  | pphy pdev =>
      have hwrite := (pphyBusEnter_runs dev d pdev (pphyPage reg)).append
        ((busWrite_runs dev _ (pdev.id.setWidth 32) (reg &&& 0x1f) o.decode).append
          (pphyBusLeave_runs dev _ pdev (pphyPage reg)))
      have hvalue : ∀ (b : β) (old : BitVec 16),
          o.operand.eval (VmData.set { d with bus := b } 1 old).regs = o.value d.regs := by
        cases o <;> intros <;> rfl
      rw [← pphyWrite_nil, setWidth_setWidth32, hvalue] at hwrite
      exact ⟨_, hwrite, ⟨rfl, rfl, rfl⟩, h.symm⟩
  | mvls id =>
      have hval : MvlsBusWrite dev id reg (o.operand.eval d.regs) d.bus b' := h
      obtain ⟨d', hwrite, hscratch, hbus⟩ := mvlsWrite_runs dev o.decode hval
      exact ⟨d', hwrite, hscratch.keeps, hbus⟩
  | xrs id =>
      have hwrite := ((busPut_runs dev d (id.setWidth 32) xrsIbd o.word).append
        (busPut_runs dev _ (id.setWidth 32) xrsIba1
          (((reg >>> 16).setWidth 16 : BitVec 16).setWidth 32))).append
        (busPut_runs dev _ (id.setWidth 32) xrsIba0
          ((((reg &&& 0xfffe) ||| 1).setWidth 16 : BitVec 16).setWidth 32))
      simp only [setWidth_setWidth32] at hwrite
      exact ⟨_, hwrite, ⟨rfl, rfl, rfl⟩, h.symm⟩

/-! ## Accesses that end -/

/-- Every polling of the command register of a switch ends.  The other drivers
do not poll. -/
def Settles (dev : Device β) : KnownDriver → Prop
  | mvls id => ∀ b, ∃ b', MvlsPolls dev id b b'
  | _ => True

/-- Then every read has a value. -/
theorem exists_busRead {drv : KnownDriver} (h : drv.Settles dev) (reg : BitVec 32) (b : β) :
    ∃ v b', drv.BusRead dev reg b v b' := by
  cases drv with
  | phy id => exact ⟨_, _, rfl⟩
  | mmdC22 id => exact ⟨_, _, rfl⟩
  | pphy pdev => exact ⟨_, _, rfl, rfl⟩
  | mvls id =>
      by_cases hid : id = 0
      · exact ⟨_, _, (if_pos hid).mpr rfl⟩
      · obtain ⟨b₁, hpolls⟩ := h (dev.write (mdioTarget id) 0 (smiWord reg false) b)
        exact ⟨_, _, (if_neg hid).mpr ⟨b₁, hpolls, rfl⟩⟩
  | xrs id => exact ⟨_, _, rfl⟩

/-- And every write is over at some time. -/
theorem exists_busWrite {drv : KnownDriver} (h : drv.Settles dev) (reg : BitVec 32)
    (val : BitVec 16) (b : β) : ∃ b', drv.BusWrite dev reg val b b' := by
  cases drv with
  | phy id => exact ⟨_, rfl⟩
  | mmdC22 id => exact ⟨_, rfl⟩
  | pphy pdev => exact ⟨_, rfl⟩
  | mvls id =>
      by_cases hid : id = 0
      · exact ⟨_, (if_pos hid).mpr rfl⟩
      · obtain ⟨b', hpolls⟩ := h (dev.write (mdioTarget id) 0 (smiWord reg true)
          (dev.write (mdioTarget id) 1 val b))
        exact ⟨b', (if_neg hid).mpr hpolls⟩
  | xrs id => exact ⟨_, rfl⟩

end KnownDriver

/-! ## Raw operations -/

/-- A raw operation: a read, a write of a value, or a read and a write of the
value under a mask. -/
def RawAccess (dev : Device β) (drv : KnownDriver) (reg : BitVec 32) :
    Option (BitVec 32 × BitVec 32) → β → β → Prop
  | none, b, b' => ∃ v, drv.BusRead dev reg b v b'
  | some (val, mask), b, b' =>
      if mask = 0 then drv.BusWrite dev reg (drv.stored (.imm val) fun _ => 0) b b'
      else ∃ v b₁, drv.BusRead dev reg b v b₁ ∧
        drv.BusWrite dev reg (drv.stored .raw fun _ => RegAccess.maskedValue v val mask) b₁ b'

/-- Over a device that settles a raw operation ends. -/
theorem exists_rawAccess {dev : Device β} {drv : KnownDriver} (h : drv.Settles dev)
    (reg : BitVec 32) (write : Option (BitVec 32 × BitVec 32)) (b : β) :
    ∃ b', RawAccess dev drv reg write b b' := by
  match write with
  | none =>
      obtain ⟨v, b', hread⟩ := KnownDriver.exists_busRead h reg b
      exact ⟨b', v, hread⟩
  | some (val, mask) =>
      by_cases hmask : mask = 0
      · obtain ⟨b', hwrite⟩ := KnownDriver.exists_busWrite h reg
          (drv.stored (.imm val) fun _ => 0) b
        exact ⟨b', (if_pos hmask).mpr hwrite⟩
      · obtain ⟨v, b₁, hread⟩ := KnownDriver.exists_busRead h reg b
        obtain ⟨b', hwrite⟩ := KnownDriver.exists_busWrite h reg
          (drv.stored .raw fun _ => RegAccess.maskedValue v val mask) b₁
        exact ⟨b', (if_neg hmask).mpr ⟨v, b₁, hread, hwrite⟩⟩

/-- What is stored depends on the value of the operand only. -/
theorem KnownDriver.stored_congr (drv : KnownDriver) {o : WriteOperand} {regs regs' : Regs}
    (h : o.value regs = o.value regs') : drv.stored o regs = drv.stored o regs' := by
  cases drv with
  | xrs id => rfl
  | phy | mmdC22 | pphy | mvls => exact h

/-- The program of a raw operation makes it. -/
theorem rawProg_runs {dev : Device β} {drv : KnownDriver} {reg : BitVec 32}
    {write : Option (BitVec 32 × BitVec 32)} {d : VmData Words β} {b' : β}
    (h : RawAccess dev drv reg write d.bus b') :
    ∃ d', Runs dev (mdioCommonRawProg drv.driver reg write) d d' ∧ d'.bus = b' := by
  match write with
  | none =>
      obtain ⟨v, hread⟩ := h
      obtain ⟨d₁, hrun, -, -, hbus⟩ := KnownDriver.read_runs hread
      exact ⟨_, hrun.append (Runs.emit dev d₁ (decodeRi_regArg 0)), hbus⟩
  | some (val, mask) =>
      by_cases hmask : mask = 0
      · subst hmask
        have hstored : drv.stored (.imm val) (fun _ => 0) = drv.stored (.imm val) d.regs :=
          drv.stored_congr rfl
        rw [RawAccess, if_pos rfl, hstored] at h
        obtain ⟨d', hrun, -, hbus⟩ := KnownDriver.write_runs h
        exact ⟨d', hrun, hbus⟩
      · obtain ⟨v, b₁, hread, hwrite⟩ := (if_neg hmask).mp h
        obtain ⟨d₁, hrun, -, hreg0, rfl⟩ := KnownDriver.read_runs hread
        have hand : Runs dev [insn .and (regArg 0) (immArg mask) (regArg 0)] d₁
            (d₁.set 0 (d₁.regs 0 &&& mask.setWidth 16)) :=
          Runs.alu dev d₁ .and (decodeRi_regArg 0) (decodeRi_immArg mask) 0
        let d₂ := d₁.set 0 (d₁.regs 0 &&& mask.setWidth 16)
        have hor : Runs dev [insn .or (regArg 0) (immArg val) (regArg 0)] d₂
            (d₂.set 0 (d₂.regs 0 ||| val.setWidth 16)) :=
          Runs.alu dev d₂ .or (decodeRi_regArg 0) (decodeRi_immArg val) 0
        let d₃ := d₂.set 0 (d₂.regs 0 ||| val.setWidth 16)
        have hvalue : WriteOperand.raw.value d₃.regs = RegAccess.maskedValue v val mask := by
          simp [WriteOperand.value, WriteOperand.operand, d₃, d₂, RegAccess.maskedValue, hreg0]
        have hstored : drv.stored .raw (fun _ => RegAccess.maskedValue v val mask) =
            drv.stored .raw d₃.regs := drv.stored_congr hvalue.symm
        rw [hstored] at hwrite
        obtain ⟨d', hrun', -, hbus⟩ := KnownDriver.write_runs (d := d₃) hwrite
        refine ⟨d', ?_, hbus⟩
        rw [RegAccess.rawProg_masked drv.relocates val hmask]
        exact hrun.append (hand.append (hor.append hrun'))

/-! ## One read after another -/

/-- Driver-level reads of the registers of a list, one after another, with the
values they bring. -/
inductive ReadsEach (dev : Device β) (drv : KnownDriver) :
    β → List (BitVec 32) → List (BitVec 16) → β → Prop
  | nil (b : β) : ReadsEach dev drv b [] [] b
  | cons {b b₁ b' : β} {reg : BitVec 32} {regs : List (BitVec 32)} {v : BitVec 16}
      {vs : List (BitVec 16)} : drv.BusRead dev reg b v b₁ → ReadsEach dev drv b₁ regs vs b' →
      ReadsEach dev drv b (reg :: regs) (v :: vs) b'

/-- Over a device that settles reads end. -/
theorem exists_readsEach {dev : Device β} {drv : KnownDriver} (h : drv.Settles dev)
    (regs : List (BitVec 32)) (b : β) : ∃ vs b', ReadsEach dev drv b regs vs b' := by
  induction regs generalizing b with
  | nil => exact ⟨[], b, .nil b⟩
  | cons reg regs ih =>
      obtain ⟨v, b₁, hread⟩ := KnownDriver.exists_busRead h reg b
      obtain ⟨vs, b', hreads⟩ := ih b₁
      exact ⟨v :: vs, b', .cons hread hreads⟩

end MdioTools.Device
