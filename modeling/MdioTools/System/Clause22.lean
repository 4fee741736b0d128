import MdioTools.Client.Assembly
import MdioTools.Device.Mmd
import MdioTools.Device.Switch
import MdioTools.Kernel.Access

/-!
# Devices on Clause 22

Most objects are devices with a Clause 22 address, and {lit}`mmd-c22` is there to
reach others without Clause 45.  Whether a transaction is one of Clause 22 is
decided in the kernel, by a bit of the address word; all objects but
{lit}`phy` also take an argument that sets the bit.

Main results:

- Definition {lit}`KeepsToClause22`: every transaction of every run is one of
  Clause 22, with the address of the command line.
- Theorem {lit}`keepsToClause22_iff`: what an object sends keeps to Clause 22
  exactly when its address has no second part or, for {lit}`mmd-c22`, when the
  operation is not the status.
-/

namespace MdioTools.System

open Kernel Client Device Library

/-! ## What the drivers access -/

/-- The registers of five bits behind an address operand. -/
def Behind (P : MdioTarget → BitVec 16 → Prop) (a : BitVec 32) : Prop :=
  ∀ r : BitVec 32, r.toNat ≤ 31 → P (mdioTarget (a.setWidth 16)) (r.setWidth 16)

section Drivers

variable {P : MdioTarget → BitVec 16 → Prop} {prog : MdioProg} {id : BitVec 16} {reg : BitVec 32}

/-- A read and its EMIT access only the register that is read. -/
theorem readEmit_accesses (ha : Behind P (id.setWidth 32)) (hreg : reg.toNat ≤ 31)
    (h : Accesses P prog) : Accesses P (prog ++ readEmit id reg) := by
  have hpush : Accesses P (prog ++ [_] ++ [insn .emit (regArg 0) 0 0]) :=
    (h.pushRead (ha reg hreg) (regArg 0)).pushQuiet rfl
  rw [List.append_assoc] at hpush
  exact hpush

/-- `phy_read` accesses only the given address. -/
theorem phyRead_accesses (ha : Behind P (id.setWidth 32)) (hreg : reg.toNat ≤ 31)
    (h : Accesses P prog) : Accesses P (phyRead id prog reg) :=
  h.pushRead (ha reg hreg) _

/-- `phy_write` accesses only the given address. -/
theorem phyWrite_accesses (ha : Behind P (id.setWidth 32)) (hreg : reg.toNat ≤ 31)
    (val : BitVec 32) (h : Accesses P prog) : Accesses P (phyWrite id prog reg val) :=
  h.pushWrite (ha reg hreg) _

/-- An MMD behind Clause 22 is selected over registers 13 and 14. -/
theorem mmdC22Address_accesses (ha : Behind P ((mmdC22Prtad id).setWidth 32))
    (h : Accesses P prog) : Accesses P (mmdC22Address id prog reg) :=
  ((h.pushWrite (ha 13 (by decide)) _).pushWrite (ha 14 (by decide)) _).pushWrite
    (ha 13 (by decide)) _

/-- Entering a page accesses the page register of the PHY. -/
theorem pphyEnter_accesses {pdev : PphyDevice} (ha : Behind P (pdev.id.setWidth 32))
    (hpage : (pdev.pageReg.setWidth 32 : BitVec 32).toNat ≤ 31) (page : BitVec 8)
    (h : Accesses P prog) : Accesses P (pphyEnter pdev prog page) :=
  ((h.pushRead (ha _ hpage) _).pushQuiet rfl).pushWrite (ha _ hpage) _

/-- Leaving a page accesses the page register of the PHY. -/
theorem pphyLeave_accesses {pdev : PphyDevice} (ha : Behind P (pdev.id.setWidth 32))
    (hpage : (pdev.pageReg.setWidth 32 : BitVec 32).toNat ≤ 31) (page : BitVec 8)
    (h : Accesses P prog) : Accesses P (pphyLeave pdev prog page) :=
  (h.pushQuiet rfl).pushWrite (ha _ hpage) _

/-- The wait for a single-chip switch polls its command register. -/
theorem mvlsWaitCmd_accesses {id : BitVec 8} (ha : Behind P (id.setWidth 32))
    (h : Accesses P prog) : Accesses P (mvlsWaitCmd prog id) :=
  ((h.pushRead (ha mvlsCmd (by decide)) _).pushQuiet rfl).pushQuiet rfl

/-- What a switch is accessed by: the ports of a bus of its own, or one address,
of which the polling loop takes the low byte. -/
structure BehindSwitch (P : MdioTarget → BitVec 16 → Prop) (id : BitVec 16) : Prop where
  single : id = 0 → ∀ port : BitVec 16, port.toNat ≤ 31 → Behind P (port.setWidth 32)
  multi : id ≠ 0 → Behind P (id.setWidth 32)
  polled : id ≠ 0 → Behind P ((id.setWidth 8 : BitVec 8).setWidth 32)

/-- A switch read keeps to the ports or to the single-chip registers. -/
theorem mvlsReadTo_accesses (ha : BehindSwitch P id) (hreg : SwitchReg reg) (dst : BitVec 8)
    (h : Accesses P prog) : Accesses P (mvlsReadTo id prog reg dst) := by
  unfold mvlsReadTo
  by_cases hid : id = 0
  · simp only [if_pos hid]
    obtain ⟨hport, hr, -⟩ := hreg.parts
    exact h.pushRead (ha.single hid _ hport _ hr) _
  · simp only [if_neg hid]
    exact (mvlsWaitCmd_accesses (ha.polled hid)
      (h.pushWrite (ha.multi hid mvlsCmd (by decide)) _)).pushRead
      (ha.multi hid mvlsData (by decide)) _

/-- A switch write keeps to the ports or to the single-chip registers. -/
theorem mvlsWrite_accesses (ha : BehindSwitch P id) (hreg : SwitchReg reg) (val : BitVec 32)
    (h : Accesses P prog) : Accesses P (mvlsWrite id prog reg val) := by
  unfold mvlsWrite
  by_cases hid : id = 0
  · simp only [if_pos hid]
    obtain ⟨hport, hr, -⟩ := hreg.parts
    exact h.pushWrite (ha.single hid _ hport _ hr) _
  · simp only [if_neg hid]
    exact mvlsWaitCmd_accesses (ha.polled hid)
      ((h.pushWrite (ha.multi hid mvlsData (by decide)) _).pushWrite
        (ha.multi hid mvlsCmd (by decide)) _)

/-- The wait for a busy bit makes the accesses of its read. -/
theorem mvlsWait_accesses (ha : BehindSwitch P id) (hreg : SwitchReg reg) (h : Accesses P prog) :
    Accesses P (mvlsWait id prog reg) :=
  ((mvlsReadTo_accesses ha hreg 0 h).pushQuiet rfl).pushQuiet rfl

/-- `xrs_read` accesses the address and data registers. -/
theorem xrsRead_accesses (ha : Behind P (id.setWidth 32)) (h : Accesses P prog) :
    Accesses P (xrsRead id prog reg) :=
  ((h.pushWrite (ha xrsIba1 (by decide)) _).pushWrite (ha xrsIba0 (by decide)) _).pushRead
    (ha xrsIbd (by decide)) _

/-- `xrs_write` accesses the address and data registers. -/
theorem xrsWrite_accesses (ha : Behind P (id.setWidth 32)) (val : BitVec 32)
    (h : Accesses P prog) : Accesses P (xrsWrite id prog reg val) :=
  ((h.pushWrite (ha xrsIbd (by decide)) _).pushWrite (ha xrsIba1 (by decide)) _).pushWrite
    (ha xrsIba0 (by decide)) _

end Drivers

/-! ## The programs of the objects -/

/-- The hooks of a driver access only what `P` allows, for the registers `ok`. -/
structure DriverAccesses (P : MdioTarget → BitVec 16 → Prop) (ok : BitVec 32 → Prop)
    (drv : MdioDriver) : Prop where
  read : ∀ prog reg, ok reg → Accesses P prog → Accesses P (drv.read prog reg)
  write : ∀ prog reg val, ok reg → Accesses P prog → Accesses P (drv.write prog reg val)

/-- The registers of a range are up to its end. -/
theorem RegRange.regs_le {range : RegRange} {regs : List (BitVec 32)}
    (h : range.regs = some regs) : ∀ reg ∈ regs, reg.toNat ≤ range.stop.toNat := by
  unfold RegRange.regs at h
  split_ifs at h
  cases h
  intro reg hreg
  obtain ⟨i, hi, rfl⟩ := List.mem_map.mp hreg
  have hlt := List.mem_range.mp hi
  rw [BitVec.toNat_add, BitVec.toNat_ofNat]
  have hmod := Nat.mod_le (range.start.toNat + i % 2 ^ 32) (2 ^ 32)
  have hi' := Nat.mod_le i (2 ^ 32)
  omega

section Objects

variable {P : MdioTarget → BitVec 16 → Prop} {ok : BitVec 32 → Prop} {drv : MdioDriver}

/-- `raw` makes the accesses of the hooks of its driver. -/
theorem mdioCommonRawProg_accesses (h : DriverAccesses P ok drv) {reg : BitVec 32} (hreg : ok reg)
    (write : Option (BitVec 32 × BitVec 32)) : Accesses P (mdioCommonRawProg drv reg write) := by
  cases write with
  | none => exact (h.read [] reg hreg .nil).pushQuiet rfl
  | some w =>
      unfold mdioCommonRawProg
      by_cases hmask : w.2 ≠ 0
      · simp only [if_pos hmask]
        exact h.write _ reg _ hreg (((h.read [] reg hreg .nil).pushQuiet rfl).pushQuiet rfl)
      · simp only [if_neg hmask]
        exact h.write [] reg _ hreg .nil

/-- `bench` makes the accesses of the hooks of its driver. -/
theorem mdioCommonBenchProg_accesses (h : DriverAccesses P ok drv) {reg : BitVec 32}
    (hreg : ok reg) (val : Option (BitVec 32)) : Accesses P (mdioCommonBenchProg drv reg val) := by
  have hloop {prog : MdioProg} (hprog : Accesses P prog) (j : MdioNlInsn)
      (hj : accessesBus j = false) : Accesses P (drv.read prog reg ++ [_] ++ [_] ++ [_] ++ [j]) :=
    ((((h.read prog reg hreg hprog).pushQuiet (i := insn .jeq (regArg 0) (regArg 7) (immArg 1))
      rfl).pushQuiet (i := insn .emit (regArg 0) 0 0) rfl).pushQuiet
      (i := insn .add (regArg 6) (immArg 1) (regArg 6)) rfl).pushQuiet hj
  cases val with
  | none => exact hloop (((h.read [] reg hreg .nil).pushQuiet rfl).pushQuiet rfl) _ rfl
  | some val =>
      exact hloop ((h.write _ reg _ hreg (Accesses.nil.pushQuiet rfl)).pushQuiet rfl) _ rfl

/-- A dump without a hook reads registers up to the end of the range. -/
theorem mdioCommonDumpProg_accesses (h : DriverAccesses P ok drv) (hdump : drv.dump = none)
    {range : RegRange} (hrange : ∀ reg : BitVec 32, reg.toNat ≤ range.stop.toNat → ok reg)
    {prog : MdioProg} (hprog : mdioCommonDumpProg drv range = some prog) : Accesses P prog := by
  rw [mdioCommonDumpProg, hdump] at hprog
  obtain ⟨regs, hregs, rfl⟩ := Option.map_eq_some_iff.mp hprog
  refine Accesses.foldl (fun reg hreg prog hprog => ?_) .nil
  exact (h.read prog reg (hrange reg (RegRange.regs_le hregs reg hreg)) hprog).pushQuiet rfl

/-- The programs of the common operations access what the hooks do for the
registers that the device parses, if a dump does. -/
theorem CommonProg.accesses {dev : MdioDevice} {prog : MdioProg} (hprog : CommonProg dev prog)
    (h : DriverAccesses P ok dev.driver)
    (hparse : ∀ arg range, dev.parseReg arg false = .ok range → ok range.1)
    (hdump : ∀ arg range, dev.parseReg arg true = .ok range →
      mdioCommonDumpProg dev.driver ⟨range.1, range.2⟩ = some prog → Accesses P prog) :
    Accesses P prog := by
  cases hprog with
  | raw write hreg => exact mdioCommonRawProg_accesses h (hparse _ _ hreg) write
  | bench val hreg => exact mdioCommonBenchProg_accesses h (hparse _ _ hreg) val
  | dump hreg hprog => exact hdump _ _ hreg hprog

end Objects

section Switch

variable {P : MdioTarget → BitVec 16 → Prop} {id : BitVec 16} (ha : BehindSwitch P id)
include ha

/-- An EMIT adds no access to a switch read. -/
theorem pushEmit_accesses {prog : MdioProg} {reg : BitVec 32} (hreg : SwitchReg reg)
    (h : Accesses P prog) : Accesses P (pushEmit (mvlsRead id prog reg)) :=
  (mvlsReadTo_accesses ha hreg 0 h).pushQuiet rfl

/-- The identification of a switch keeps to its accesses. -/
theorem mvlsIdProg_accesses : Accesses P (mvlsIdProg id) :=
  pushEmit_accesses ha ⟨0x10, 0x03, by decide, by decide, rfl⟩ .nil

/-- Reading the trunk tables keeps to the accesses of the switch. -/
theorem mvlsLagProg_accesses : Accesses P (mvlsLagProg id) := by
  have hmask : SwitchReg (mvlsReg mvlsG2 0x08) := ⟨mvlsG2, 0x08, by decide, by decide, rfl⟩
  have hmap : SwitchReg (mvlsReg mvlsG2 0x07) := ⟨mvlsG2, 0x07, by decide, by decide, rfl⟩
  refine Accesses.foldl (fun i _ prog h => ?_) (Accesses.foldl (fun i _ prog h => ?_) .nil)
  · exact pushEmit_accesses ha hmap (mvlsWrite_accesses ha hmap _
      (((mvlsReadTo_accesses ha hmap 0 h).pushQuiet rfl).pushQuiet rfl))
  · exact pushEmit_accesses ha hmask (mvlsWrite_accesses ha hmask _ h)

/-- Capturing counters keeps to the accesses of the switch. -/
theorem mvlsCounterProg_accesses (fam : MvlsFamliy) : Accesses P (mvlsCounterProg id fam) := by
  have hop : SwitchReg (mvlsReg mvlsG1 0x1d) := ⟨mvlsG1, 0x1d, by decide, by decide, rfl⟩
  have hhigh : SwitchReg (mvlsReg mvlsG1 0x1e) := ⟨mvlsG1, 0x1e, by decide, by decide, rfl⟩
  have hlow : SwitchReg (mvlsReg mvlsG1 0x1f) := ⟨mvlsG1, 0x1f, by decide, by decide, rfl⟩
  have hstart : Accesses P (mdioProgPush (mvlsWait id [] (mvlsReg mvlsG1 0x1d))
      (insn .add (immArg (1 <<< 15 ||| 5 <<< 12 ||| (mvlsCounterBase fam).1)) (immArg 0)
        (regArg 1))) :=
    (mvlsWait_accesses ha hop .nil).pushQuiet rfl
  have hloop := mvlsWait_accesses ha hop (mvlsWrite_accesses ha hop (regArg 1) hstart)
  refine Accesses.pushQuiet (Accesses.pushQuiet (Accesses.foldl (fun counter _ prog h => ?_) hloop)
    rfl) rfl
  exact pushEmit_accesses ha hlow (pushEmit_accesses ha hhigh
    (mvlsWait_accesses ha hop (mvlsWrite_accesses ha hop _ h)))

/-- An ATU command keeps to the accesses of the switch. -/
theorem mvlsAtuProg_accesses (fid : Option (BitVec 32)) (op : BitVec 8) :
    Accesses P (mvlsAtuProg id fid op) := by
  have hfid : SwitchReg (mvlsReg mvlsG1 0x01) := ⟨mvlsG1, 0x01, by decide, by decide, rfl⟩
  have hop : SwitchReg (mvlsReg mvlsG1 0x0b) := ⟨mvlsG1, 0x0b, by decide, by decide, rfl⟩
  have hrun {prog : MdioProg} (h : Accesses P prog) (x y : BitVec 32) :
      Accesses P (mvlsWait id (mvlsWrite id (mvlsReadTo id (mvlsWait id prog (mvlsReg mvlsG1 0x0b))
        (mvlsReg mvlsG1 0x0b) 0 ++ [insn .and (regArg 0) (immArg x) (regArg 0)] ++
        [insn .or (regArg 0) (immArg y) (regArg 0)]) (mvlsReg mvlsG1 0x0b) (regArg 0))
        (mvlsReg mvlsG1 0x0b)) :=
    mvlsWait_accesses ha hop (mvlsWrite_accesses ha hop _
      (((mvlsReadTo_accesses ha hop 0 (mvlsWait_accesses ha hop h)).pushQuiet rfl).pushQuiet rfl))
  cases fid with
  | none => exact hrun .nil _ _
  | some fid =>
      exact hrun (mvlsWrite_accesses ha hfid _
        (((mvlsReadTo_accesses ha hfid 0 .nil).pushQuiet rfl).pushQuiet rfl)) _ _

end Switch

/-! ## Keeping to Clause 22 -/

/-- The number that a device argument begins with: the address, or the port of an
address with two parts. -/
def givenAddr (arg : CStr) : Nat :=
  (strtoul arg).value.toNat

/-- A Clause 22 transaction with an address and a register of five bits.  The
address is the one given, unless the object is a switch with a bus of its own. -/
def Clause22 (obj : Object) (arg : CStr) (t : MdioTarget) (reg : BitVec 16) : Prop :=
  ∃ addr, t = .c22 addr ∧ addr.toNat ≤ 31 ∧ reg.toNat ≤ 31 ∧
    (¬(obj = .mvls ∧ givenAddr arg = 0) → addr.toNat = givenAddr arg)

/-- On every bus, whatever it answers, and for every host, all transactions of
the run of a program are such transactions. -/
def KeepsToClause22 (obj : Object) (arg : CStr) (prog : MdioProg) : Prop :=
  ∀ (π β : Type) (bus : MiiBus β) (host : Host π) (hst : π) (b : β) (s : EvalState π β),
    (mdioNlEval prog bus host).Reaches (EvalState.entry hst b) s →
    ∀ t reg, s.access prog host = some (t, reg) → Clause22 obj arg t reg

/-- The command lines that keep to Clause 22: those without a second part of the
address, and for `mmd-c22` those that do not ask for the status. -/
def InClause22 (obj : Object) (argv : List CStr) : Prop :=
  match obj with
  | .mmdC22 => isStatus argv.tail = false
  | _ => ':' ∉ argv.headD []

/-- Where all accesses of the instructions are Clause 22, those of every run are. -/
theorem Accesses.keepsToClause22 {obj : Object} {arg : CStr} {prog : MdioProg}
    (h : Accesses (Clause22 obj arg) prog) : KeepsToClause22 obj arg prog :=
  fun _ _ _ _ _ _ _ _ _ _ hs => h.access hs

/-! ### Addresses -/

/-- An accepted address without a second part. -/
theorem mdioParseDev_plain {arg : CStr} {allowC45 : Bool} {id : BitVec 16}
    (h : mdioParseDev arg allowC45 = .ok id) (hcolon : ':' ∉ arg) :
    id.toNat = givenAddr arg ∧ id.toNat ≤ 31 := by
  rcases mdioParseDev_ok_iff.mp h with ⟨-, hle, rfl⟩ | ⟨-, after, hrest, -⟩
  · rw [BitVec.toNat_setWidth, Nat.mod_eq_of_lt (by omega)]
    exact ⟨rfl, hle⟩
  · refine absurd ((mem_strtoull_rest_iff (by decide)).mp ?_) hcolon
    have hmem : ':' ∈ (strtoul arg).rest := hrest ▸ List.mem_cons_self
    exact hmem

/-- An accepted address with a second part is one of Clause 45. -/
theorem mdioParseDev_c45 {arg : CStr} {allowC45 : Bool} {id : BitVec 16}
    (h : mdioParseDev arg allowC45 = .ok id) (hcolon : ':' ∈ arg) :
    allowC45 = true ∧ ∃ c : C45Id, c.id = id ∧ c.prtad.toNat = givenAddr arg := by
  rcases mdioParseDev_ok_iff.mp h with ⟨hrest, -⟩ | ⟨hallow, after, -, -, hp, hd, rfl⟩
  · have hmem : ':' ∈ (strtoul arg).rest := (mem_strtoull_rest_iff (by decide)).mpr hcolon
    rw [hrest] at hmem
    cases hmem
  · have hprtad : ((strtoul arg).value.setWidth 16 : BitVec 16).toNat = givenAddr arg := by
      rw [BitVec.toNat_setWidth, Nat.mod_eq_of_lt (by omega)]
      rfl
    have hdevad : ((strtoul after).value.setWidth 16 : BitVec 16).toNat ≤ 31 := by
      rw [BitVec.toNat_setWidth, Nat.mod_eq_of_lt (by omega)]
      exact hd
    exact ⟨hallow, ⟨_, _, _, hprtad.trans_le hp, hdevad, rfl⟩, rfl, hprtad⟩

/-- An address up to 31 is a Clause 22 target with each of its 32 registers. -/
theorem clause22_of_le {obj : Object} {arg : CStr} {addr : BitVec 16} (hle : addr.toNat ≤ 31)
    (hgiven : ¬(obj = .mvls ∧ givenAddr arg = 0) → addr.toNat = givenAddr arg) {r : BitVec 32}
    (hr : r.toNat ≤ 31) : Clause22 obj arg (mdioTarget addr) (r.setWidth 16) := by
  refine ⟨addr, mdioTarget_of_lt (by omega), hle, ?_, hgiven⟩
  rw [BitVec.toNat_setWidth]
  omega

/-- The registers behind an address without a second part. -/
theorem behind_clause22 {obj : Object} {arg : CStr} {addr : BitVec 16} (hle : addr.toNat ≤ 31)
    (hgiven : ¬(obj = .mvls ∧ givenAddr arg = 0) → addr.toNat = givenAddr arg) :
    Behind (Clause22 obj arg) (addr.setWidth 32) := by
  intro r hr
  rw [setWidth_setWidth32]
  exact clause22_of_le hle hgiven hr

/-! ### Command lines that keep to it -/

section Keeping

variable {obj : Object} {arg : CStr} {id : BitVec 16} {prog : MdioProg}

/-- The accesses of a switch at an address up to 31 are Clause 22. -/
theorem behindSwitch_clause22 (haddr : id.toNat = givenAddr arg) (hle : id.toNat ≤ 31) :
    BehindSwitch (Clause22 .mvls arg) id where
  single hid port hport := by
    refine behind_clause22 hport fun hgiven => absurd ⟨rfl, ?_⟩ hgiven
    rw [← haddr, hid]
    rfl
  multi _ := behind_clause22 hle fun _ => haddr
  polled _ r hr := by
    rw [target_setWidth8 hle, ← mdioTarget_of_lt (show id.toNat < 0x8000 by omega)]
    exact clause22_of_le hle (fun _ => haddr) hr

theorem phyDriver_accesses {P : MdioTarget → BitVec 16 → Prop} (ha : Behind P (id.setWidth 32)) :
    DriverAccesses P (fun reg => reg.toNat ≤ 31) (phyDriver id) where
  read _ _ hreg h := phyRead_accesses ha hreg h
  write _ _ val hreg h := phyWrite_accesses ha hreg val h

theorem mmdC22Driver_accesses {P : MdioTarget → BitVec 16 → Prop}
    (ha : Behind P ((mmdC22Prtad id).setWidth 32)) :
    DriverAccesses P (fun _ => True) (mmdC22Driver id) where
  read _ _ _ h := (mmdC22Address_accesses ha h).pushRead (ha 14 (by decide)) _
  write _ _ _ _ h := (mmdC22Address_accesses ha h).pushWrite (ha 14 (by decide)) _

/-- The register number of a paged PHY has five bits. -/
theorem and_1f_le (reg : BitVec 32) : (reg &&& 0x1f).toNat ≤ 31 := by
  rw [BitVec.toNat_and]
  exact Nat.and_le_right

/-- So have the numbers of the page registers. -/
theorem pageReg_le (id : BitVec 16) :
    ((mvaPphy id).pageReg.setWidth 32 : BitVec 32).toNat ≤ 31 ∧
      ((msccPphy id).pageReg.setWidth 32 : BitVec 32).toNat ≤ 31 := by
  simp only [mvaPphy, msccPphy]
  decide

theorem pphyDriver_accesses {P : MdioTarget → BitVec 16 → Prop} {pdev : PphyDevice}
    (ha : Behind P (pdev.id.setWidth 32))
    (hpage : (pdev.pageReg.setWidth 32 : BitVec 32).toNat ≤ 31) :
    DriverAccesses P (fun _ => True) (pphyDriver pdev) where
  read _ reg _ h := pphyLeave_accesses ha hpage _
    ((pphyEnter_accesses ha hpage _ h).pushRead (ha _ (and_1f_le reg)) _)
  write _ reg val _ h := pphyLeave_accesses ha hpage _
    ((pphyEnter_accesses ha hpage _ h).pushWrite (ha _ (and_1f_le reg)) val)

theorem mvlsDriver_accesses {P : MdioTarget → BitVec 16 → Prop} (ha : BehindSwitch P id) :
    DriverAccesses P SwitchReg (mvlsDriver id) where
  read _ _ hreg h := mvlsReadTo_accesses ha hreg 0 h
  write _ _ val hreg h := mvlsWrite_accesses ha hreg val h

theorem xrsDriver_accesses {P : MdioTarget → BitVec 16 → Prop} (ha : Behind P (id.setWidth 32)) :
    DriverAccesses P (fun _ => True) (xrsDriver id) where
  read _ _ _ h := xrsRead_accesses ha h
  write _ _ val _ h := xrsWrite_accesses ha val h

/-- The default parser keeps both ends of a range within its bound. -/
theorem dfltParseReg_le {max : BitVec 32} {arg : Option CStr} {rege : Bool}
    {range : BitVec 32 × BitVec 32} (h : mdioDeviceDfltParseReg max arg rege = .ok range) :
    range.1.toNat ≤ max.toNat ∧ range.2.toNat ≤ max.toNat := by
  cases arg with
  | none => cases h
  | some arg => exact mdioParseRange_le h

/-- A dump of a paged PHY reads registers up to the end of the range. -/
theorem pphyDump_accesses {P : MdioTarget → BitVec 16 → Prop} {pdev : PphyDevice}
    (ha : Behind P (pdev.id.setWidth 32))
    (hpage : (pdev.pageReg.setWidth 32 : BitVec 32).toNat ≤ 31) {range : RegRange}
    (hrange : range.stop.toNat ≤ 31) (h : pphyDump pdev [] range = some prog) :
    Accesses P prog := by
  obtain ⟨regs, hregs, rfl⟩ := Option.map_eq_some_iff.mp h
  refine pphyLeave_accesses ha hpage _
    (Accesses.foldl (fun reg hreg prog hprog => ?_) (pphyEnter_accesses ha hpage _ .nil))
  have hle := RegRange.regs_le hregs reg hreg
  exact readEmit_accesses ha (le_trans hle hrange) hprog

/-- The common operations of a paged PHY keep to its address. -/
theorem pphyCommon_accesses (pdev : PphyDevice) {names : List PphyPageName}
    (ha : Behind (Clause22 obj arg) (pdev.id.setWidth 32))
    (hpage : (pdev.pageReg.setWidth 32 : BitVec 32).toNat ≤ 31)
    (h : CommonProg ⟨pphyDriver pdev, pphyParseReg 31 names, 16⟩ prog) :
    Accesses (Clause22 obj arg) prog := by
  refine CommonProg.accesses h (pphyDriver_accesses ha hpage) (fun _ _ _ => trivial)
    fun arg' range hrange hdump => ?_
  obtain ⟨_, _, -, hstop, -⟩ := pphyParseReg_ok hrange
  exact pphyDump_accesses ha hpage hstop hdump

/-- The status of a PHY reads registers 1 to 3. -/
theorem phyStatusProg_accesses {P : MdioTarget → BitVec 16 → Prop}
    (ha : Behind P (id.setWidth 32)) : Accesses P (phyStatusProg id) :=
  readEmit_accesses ha (by decide) (readEmit_accesses ha (by decide) (readEmit_accesses ha
    (by decide) (readEmit_accesses ha (by decide) (readEmit_accesses ha (by decide) .nil))))

/-- The status of an Alaska PHY keeps to its address. -/
theorem mvaStatusProg_accesses {P : MdioTarget → BitVec 16 → Prop} (pdev : PphyDevice)
    (ha : Behind P (pdev.id.setWidth 32))
    (hpage : (pdev.pageReg.setWidth 32 : BitVec 32).toNat ≤ 31) : Accesses P (mvaStatusProg pdev) :=
  readEmit_accesses ha hpage (readEmit_accesses ha (by decide) (readEmit_accesses ha
    (by decide) (readEmit_accesses ha (by decide) (readEmit_accesses ha (by decide) .nil))))

/-- What a command line inside Clause 22 builds accesses nothing else. -/
theorem Object.Builds.accesses {rest : List CStr} (hobj : obj ≠ .mmd)
    (hid : mdioParseDev arg obj.allowsC45 = .ok id) (h : obj.Builds id rest prog)
    (hin : InClause22 obj (arg :: rest)) : Accesses (Clause22 obj arg) prog := by
  cases obj with
  | mmd => exact absurd rfl hobj
  | phy =>
      obtain ⟨haddr, hle⟩ := mdioParseDev_plain hid hin
      have ha := @behind_clause22 .phy _ _ hle fun _ => haddr
      unfold Object.Builds at h
      split_ifs at h
      · rw [h]
        exact phyStatusProg_accesses ha
      · exact CommonProg.accesses h (phyDriver_accesses ha)
          (fun _ _ hreg => (dfltParseReg_le hreg).1) fun _ _ hreg hdump =>
            mdioCommonDumpProg_accesses (phyDriver_accesses ha) rfl
              (fun _ hle => le_trans hle (dfltParseReg_le hreg).2) hdump
  | mmdC22 =>
      obtain ⟨hc45, h⟩ := h
      rw [if_neg (by simpa [InClause22] using hin)] at h
      by_cases hcolon : ':' ∈ arg
      · obtain ⟨-, c, rfl, hprtad⟩ := mdioParseDev_c45 hid hcolon
        have ha : Behind (Clause22 .mmdC22 arg) ((mmdC22Prtad c.id).setWidth 32) := by
          intro r hr
          rw [BitVec.setWidth_setWidth_of_le _ (by decide), c.fields.2.1]
          exact clause22_of_le c.prtad_le (fun _ => hprtad) hr
        exact CommonProg.accesses h (mmdC22Driver_accesses ha) (fun _ _ _ => trivial)
          fun _ _ _ hdump => mdioCommonDumpProg_accesses (mmdC22Driver_accesses ha) rfl
            (fun _ _ => trivial) hdump
      · obtain ⟨-, hle⟩ := mdioParseDev_plain hid hcolon
        obtain ⟨c, rfl⟩ := exists_c45Id hid hc45
        have htarget := mdioTarget_of_lt (show c.id.toNat < 0x8000 by omega)
        rw [c.fields.1] at htarget
        cases htarget
  | mva =>
      obtain ⟨haddr, hle⟩ := mdioParseDev_plain hid hin
      have ha := @behind_clause22 .mva _ _ hle fun _ => haddr
      unfold Object.Builds at h
      split_ifs at h
      · rw [h]
        exact mvaStatusProg_accesses (mvaPphy id) ha (pageReg_le id).1
      · exact pphyCommon_accesses (mvaPphy id) ha (pageReg_le id).1 h
  | mscc =>
      obtain ⟨haddr, hle⟩ := mdioParseDev_plain hid hin
      have ha := @behind_clause22 .mscc _ _ hle fun _ => haddr
      exact pphyCommon_accesses (msccPphy id) ha (pageReg_le id).2 h
  | mvls =>
      obtain ⟨haddr, hle⟩ := mdioParseDev_plain hid hin
      have ha := behindSwitch_clause22 haddr hle
      obtain rfl | rfl | ⟨fam, rfl⟩ | ⟨fid, op, rfl⟩ | hcommon := h
      · exact mvlsIdProg_accesses ha
      · exact mvlsLagProg_accesses ha
      · exact mvlsCounterProg_accesses ha fam
      · exact mvlsAtuProg_accesses ha fid op
      · refine CommonProg.accesses hcommon (mvlsDriver_accesses ha)
          (fun arg' range hreg => ?_) fun arg' range hreg _ => ?_
        · change mvlsParseReg arg' false = .ok range at hreg
          exact (mvlsParseReg_ok hreg).2
        · change mvlsParseReg arg' true = .ok range at hreg
          cases (mvlsParseReg_ok hreg).1
  | xrs =>
      obtain ⟨haddr, hle⟩ := mdioParseDev_plain hid hin
      have ha := @behind_clause22 .xrs _ _ hle fun _ => haddr
      exact CommonProg.accesses h (xrsDriver_accesses ha) (fun _ _ _ => trivial)
        fun _ _ _ hdump => mdioCommonDumpProg_accesses (xrsDriver_accesses ha) rfl
          (fun _ _ => trivial) hdump

end Keeping

/-! ### Command lines that leave it -/

/-- An instruction whose transaction has a certain target. -/
def Targets (t : MdioTarget) (i : MdioNlInsn) : Prop :=
  ∀ regs, ∃ reg, insnAccess i regs = some (t, reg)

/-- A READ with an immediate register. -/
theorem targets_read (id : BitVec 16) (r d : BitVec 32) :
    Targets (mdioTarget id) (insn .read (immArg (id.setWidth 32)) (immArg r) d) := by
  intro regs
  rw [insnAccess_read, setWidth_setWidth32]
  exact ⟨_, rfl⟩

/-- A READ whose register is in a register of the machine. -/
theorem targets_readReg (id : BitVec 16) (r d : BitVec 32) :
    Targets (mdioTarget id) (insn .read (immArg (id.setWidth 32)) (regArg r) d) := by
  intro regs
  have hread : accessesBus (insn .read (immArg (id.setWidth 32)) (regArg r) d) = true := rfl
  refine ⟨regs (regIndex r), ?_⟩
  rw [insnAccess, if_pos hread]
  simp only [insn, argRi_immArg, argRi_regArg, setWidth_setWidth32, Option.bind_eq_bind,
    Option.bind_some]

/-- A WRITE of the client. -/
theorem targets_write (id : BitVec 16) (r v : BitVec 32) :
    Targets (mdioTarget id) (insn .write (immArg (id.setWidth 32)) (immArg r) v) := by
  intro regs
  rw [insnAccess_write, setWidth_setWidth32]
  exact ⟨_, rfl⟩

/-- A program whose first transaction has a certain target: it is made by the
first instruction, or by the second behind an addition. -/
inductive Begins (t : MdioTarget) (prog : MdioProg) : Prop
  | first {i} (hi : Targets t i) (h : [i] <+: prog)
  | second {i x d} (hi : Targets t i)
      (h : [insn .add (immArg x) (immArg 0) (regArg d), i] <+: prog)

/-- A program that begins with a Clause 45 transaction does not keep to
Clause 22. -/
theorem Begins.not_keepsToClause22 {p d : BitVec 16} {prog : MdioProg}
    (h : Begins (.c45 p d) prog) (obj : Object) (arg : CStr) : ¬KeepsToClause22 obj arg prog := by
  intro hkeeps
  cases h with
  | first hi hprog =>
      obtain ⟨reg, haccess⟩ := hi fun _ => 0
      have hentry := (access_entry hprog quietHost [] rfl ()).trans haccess
      obtain ⟨_, htarget, -⟩ := hkeeps _ _ nullBus quietHost [] () _ (.refl _) _ _ hentry
      cases htarget
  | second hi hprog =>
      obtain ⟨s, hs, hsecond⟩ := access_second hprog nullBus quietHost (fun _ => rfl) [] ()
      obtain ⟨reg, haccess⟩ := hi s.regs
      obtain ⟨_, htarget, -⟩ := hkeeps _ _ nullBus quietHost [] () s hs _ _ (hsecond.trans haccess)
      cases htarget

/-- A function that pushes an instruction with a transaction of a certain target
first. -/
def Opens (t : MdioTarget) (f : MdioProg → MdioProg) : Prop :=
  ∀ prog, ∃ i, Targets t i ∧ prog ++ [i] <+: f prog

namespace Opens

variable {t : MdioTarget} {n : Nat} {f g : MdioProg → MdioProg}

/-- A push of an instruction with a transaction opens with it. -/
theorem push {i : MdioNlInsn} (hi : Targets t i) : Opens t fun prog => mdioProgPush prog i :=
  fun _ => ⟨i, hi, List.prefix_refl _⟩

/-- It does not matter what is pushed then. -/
theorem lengthens (hf : Opens t f) (hg : Lengthens n g) : Opens t fun prog => g (f prog) := by
  intro prog
  obtain ⟨i, hi, hfront⟩ := hf prog
  exact ⟨i, hi, hfront.trans (hg (f prog)).1⟩

theorem comp (hf : Opens t f) (hg : Pushes n g) : Opens t fun prog => g (f prog) :=
  hf.lengthens hg.lengthens

/-- On the empty program such a function begins with the transaction. -/
theorem begins (hf : Opens t f) : Begins t (f []) := by
  obtain ⟨i, hi, hfront⟩ := hf []
  exact .first hi hfront

/-- A function that is called behind an addition. -/
theorem begins_second (hf : Opens t f) (x d : BitVec 32) :
    Begins t (f [insn .add (immArg x) (immArg 0) (regArg d)]) := by
  obtain ⟨i, hi, hfront⟩ := hf [insn .add (immArg x) (immArg 0) (regArg d)]
  exact .second hi hfront

end Opens

/-- How a program begins does not depend on what follows. -/
theorem Begins.append {t : MdioTarget} {prog prog' : MdioProg} (h : Begins t prog)
    (hfront : prog <+: prog') : Begins t prog' := by
  cases h with
  | first hi h => exact .first hi (h.trans hfront)
  | second hi h => exact .second hi (h.trans hfront)

/-- The hooks of a driver open with a transaction of a certain target. -/
structure DriverOpens (t : MdioTarget) (drv : MdioDriver) : Prop where
  read : ∀ reg, Opens t fun prog => drv.read prog reg
  write : ∀ reg val, IsRi val → Opens t fun prog => drv.write prog reg val

section Leaving

variable (id : BitVec 16) (pdev : PphyDevice) (reg : BitVec 32)

/-- Entering a page opens with the address of the PHY. -/
theorem pphyEnter_opens (page : BitVec 8) :
    Opens (mdioTarget pdev.id) fun prog => pphyEnter pdev prog page :=
  (Opens.push (targets_read pdev.id _ _)).comp (Pushes.id.pushSkip
    (skip_jeq (isRi_regArg 1) (isRi_immArg (page.setWidth 32)))
    (plain_write (isRi_immArg _) (isRi_immArg _) (isRi_immArg _)))

theorem pphyDriver_opens : DriverOpens (mdioTarget pdev.id) (pphyDriver pdev) where
  read _ := (pphyEnter_opens pdev _).comp
    ((Pushes.plain (plain_read (isRi_immArg _) (isRi_immArg _) _)).comp (pphyLeave_pushes pdev _))
  write _ _ hval := (pphyEnter_opens pdev _).comp
    ((Pushes.plain (plain_write (isRi_immArg _) (isRi_immArg _) hval)).comp
      (pphyLeave_pushes pdev _))

/-- A single-chip read opens with the address of the switch. -/
theorem mvlsReadTo_opens {id : BitVec 16} (hid : id ≠ 0) (dst : BitVec 8) :
    Opens (mdioTarget id) fun prog => mvlsReadTo id prog reg dst := by
  unfold mvlsReadTo
  simp only [if_neg hid]
  exact (Opens.push (targets_write id _ _)).comp
    ((mvlsWaitCmd_pushes _).push (plain_read (isRi_immArg _) (isRi_immArg _) _))

/-- A single-chip write opens with the address of the switch. -/
theorem mvlsWrite_opens {id : BitVec 16} (hid : id ≠ 0) (val : BitVec 32) :
    Opens (mdioTarget id) fun prog => mvlsWrite id prog reg val := by
  unfold mvlsWrite
  simp only [if_neg hid]
  exact (Opens.push (targets_write id _ _)).comp
    ((Pushes.plain (plain_write (isRi_immArg _) (isRi_immArg _) (isRi_immArg _))).comp
      (mvlsWaitCmd_pushes _))

theorem mvlsDriver_opens {id : BitVec 16} (hid : id ≠ 0) :
    DriverOpens (mdioTarget id) (mvlsDriver id) where
  read reg := mvlsReadTo_opens reg hid 0
  write reg val _ := mvlsWrite_opens reg hid val

theorem xrsDriver_opens : DriverOpens (mdioTarget id) (xrsDriver id) where
  read _ := (Opens.push (targets_write id _ _)).comp
    ((Pushes.plain (plain_write (isRi_immArg _) (isRi_immArg _) (isRi_immArg _))).push
      (plain_read (isRi_immArg _) (isRi_immArg _) _))
  write _ _ _ := (Opens.push (targets_write id _ _)).comp
    ((Pushes.plain (plain_write (isRi_immArg _) (isRi_immArg _) (isRi_immArg _))).push
      (plain_write (isRi_immArg _) (isRi_immArg _) (isRi_immArg _)))

variable {drv : MdioDriver} {t : MdioTarget}

/-- `raw` begins with the transaction of its first hook. -/
theorem mdioCommonRawProg_begins (h : DriverOpens t drv) (hdrv : DriverPushes drv)
    (write : Option (BitVec 32 × BitVec 32)) : Begins t (mdioCommonRawProg drv reg write) := by
  cases write with
  | none => exact ((h.read reg).comp (Pushes.plain (plain_emit (isRi_regArg 0)))).begins
  | some w =>
      unfold mdioCommonRawProg
      by_cases hmask : w.2 ≠ 0
      · simp only [if_pos hmask]
        exact ((h.read reg).comp (((Pushes.plain (plain_and (isRi_regArg 0) (isRi_immArg w.2) 0)).push
          (plain_or (isRi_regArg 0) (isRi_immArg w.1) 0)).comp
          (hdrv.write reg _ (isRi_regArg 0)))).begins
      · simp only [if_neg hmask]
        exact (h.write reg _ (isRi_immArg w.1)).begins

/-- A benchmark that writes a value first has it in a register. -/
theorem mdioCommonBenchProg_begins (h : DriverOpens t drv) (hdrv : DriverPushes drv)
    (val : Option (BitVec 32)) : Begins t (mdioCommonBenchProg drv reg val) := by
  have hrest {prog : MdioProg} (i j : MdioNlInsn) : prog <+:
      drv.read (mdioProgPush prog i) reg ++ [insn .jeq (regArg 0) (regArg 7) (immArg 1)] ++
        [insn .emit (regArg 0) 0 0] ++ [insn .add (regArg 6) (immArg 1) (regArg 6)] ++ [j] := by
    have hread := ((hdrv.read reg).lengthens (mdioProgPush prog i)).1
    simp only [List.append_assoc]
    exact ((List.prefix_append prog [i]).trans hread).trans (List.prefix_append _ _)
  cases val with
  | none =>
      exact ((h.read reg).comp (Pushes.plain
        (plain_add (isRi_regArg 0) (isRi_immArg 0) 7))).begins.append (hrest _ _)
  | some val => exact ((h.write reg _ (isRi_regArg 7)).begins_second val 7).append (hrest _ _)

/-- A dump without a hook begins with its first register, if it has one. -/
theorem mdioCommonDumpProg_begins (h : DriverOpens t drv) (hdrv : DriverPushes drv)
    (hdump : drv.dump = none) {range : RegRange} {prog : MdioProg}
    (hprog : mdioCommonDumpProg drv range = some prog) (hne : prog ≠ []) : Begins t prog := by
  rw [mdioCommonDumpProg, hdump] at hprog
  obtain ⟨regs, -, rfl⟩ := Option.map_eq_some_iff.mp hprog
  have hemit := Pushes.plain (plain_emit (isRi_regArg 0))
  cases regs with
  | nil => exact absurd rfl hne
  | cons r rest =>
      have hfront := (Pushes.foldl (l := rest) fun r _ => (hdrv.read r).comp hemit).lengthens
        (dumpOne drv [] r)
      exact ((h.read r).comp hemit).begins.append hfront.1

/-- A dump of a paged PHY begins with the page register. -/
theorem pphyDump_begins {range : RegRange} {prog : MdioProg}
    (h : pphyDump pdev [] range = some prog) : Begins (mdioTarget pdev.id) prog := by
  obtain ⟨regs, -, rfl⟩ := Option.map_eq_some_iff.mp h
  exact ((pphyEnter_opens pdev _).comp ((Pushes.foldl fun r _ => readEmit_pushes pdev.id r).comp
    (pphyLeave_pushes pdev _))).begins

/-- So do all common operations, if the dump does. -/
theorem CommonProg.begins {dev : MdioDevice} {prog : MdioProg} (hprog : CommonProg dev prog)
    (h : DriverOpens t dev.driver) (hdrv : DriverPushes dev.driver)
    (hdump : ∀ arg range, dev.parseReg arg true = .ok range →
      mdioCommonDumpProg dev.driver ⟨range.1, range.2⟩ = some prog → Begins t prog) :
    Begins t prog := by
  cases hprog with
  | raw write _ => exact mdioCommonRawProg_begins _ h hdrv write
  | bench val _ => exact mdioCommonBenchProg_begins _ h hdrv val
  | dump hreg hprog => exact hdump _ _ hreg hprog

/-- The wait for a busy bit opens with its read. -/
theorem mvlsWait_opens {id : BitVec 16} (hid : id ≠ 0) :
    Opens (mdioTarget id) fun prog => mvlsWait id prog reg := by
  intro prog
  obtain ⟨i, hi, hfront⟩ := mvlsReadTo_opens reg hid 0 prog
  exact ⟨i, hi, hfront.trans ((List.prefix_append _ _).trans (List.prefix_append _ _))⟩

/-- A read and its EMIT begin with the read. -/
theorem readEmit_begins (rest : MdioProg) : Begins (mdioTarget id) (readEmit id reg ++ rest) :=
  .first (targets_read id reg _) ⟨_, rfl⟩

end Leaving

/-- The LinkStreet operations begin with an access of the switch. -/
theorem mvls_begins {id : BitVec 16} (hid : id ≠ 0) {args : List CStr} {prog : MdioProg}
    (h : Object.mvls.Builds id args prog) : Begins (mdioTarget id) prog := by
  obtain rfl | rfl | ⟨fam, rfl⟩ | ⟨fid, op, rfl⟩ | hcommon := h
  · exact ((mvlsReadTo_opens _ hid 0).comp (Pushes.plain (plain_emit (isRi_regArg 0)))).begins
  · obtain ⟨n, g, hg, hprog⟩ := mvlsLagProg_rest id
    rw [hprog]
    exact ((mvlsWrite_opens _ hid _).comp hg).begins
  · obtain ⟨n, g, hg, hprog⟩ := mvlsCounterProg_rest id fam
    rw [hprog]
    exact ((mvlsWait_opens _ hid).lengthens hg).begins
  · obtain ⟨n, g, hg, hprog⟩ := mvlsAtuProg_rest id fid op
    rw [hprog]
    cases fid with
    | none => exact ((mvlsWait_opens _ hid).comp hg).begins
    | some fid => exact ((mvlsReadTo_opens _ hid 0).comp hg).begins
  · refine CommonProg.begins hcommon (mvlsDriver_opens hid) (mvlsDriver_pushes id)
      fun arg range hreg _ => ?_
    change mvlsParseReg arg true = .ok range at hreg
    cases (mvlsParseReg_ok hreg).1

/-- The common operations of a paged PHY begin at its address. -/
theorem pphyCommon_begins {pdev : PphyDevice} {names : List PphyPageName} {prog : MdioProg}
    (h : CommonProg ⟨pphyDriver pdev, pphyParseReg 31 names, 16⟩ prog) :
    Begins (mdioTarget pdev.id) prog :=
  CommonProg.begins h (pphyDriver_opens pdev) (pphyDriver_pushes pdev) fun _ _ _ hdump =>
    pphyDump_begins pdev hdump

/-- What a command line outside Clause 22 builds begins with a Clause 45
transaction, if it has any instruction. -/
theorem Object.Builds.begins {obj : Object} {arg : CStr} {id : BitVec 16} {rest : List CStr}
    {prog : MdioProg} (hobj : obj ≠ .mmd) (hid : mdioParseDev arg obj.allowsC45 = .ok id)
    (h : obj.Builds id rest prog) (hne : prog ≠ []) (hout : ¬InClause22 obj (arg :: rest)) :
    ∃ p d, Begins (.c45 p d) prog := by
  by_cases hc22 : obj = .mmdC22
  · subst hc22
    obtain ⟨hc45, h⟩ := h
    obtain ⟨c, rfl⟩ := exists_c45Id hid hc45
    rw [if_pos (by simpa [InClause22] using hout)] at h
    refine ⟨c.prtad, c.devad, ?_⟩
    rw [h, ← c.fields.1]
    exact .second (targets_readReg c.id 1 _) ⟨_, rfl⟩
  · have hcolon : ':' ∈ arg := by
      cases obj <;> first | exact absurd rfl hc22 | simpa [InClause22] using hout
    obtain ⟨hallow, c, rfl, -⟩ := mdioParseDev_c45 hid hcolon
    have htarget := c.fields.1
    have hnonzero : c.id ≠ 0 := by
      intro hzero
      rw [hzero, mdioTarget_of_lt (by decide)] at htarget
      cases htarget
    refine ⟨c.prtad, c.devad, ?_⟩
    rw [← htarget]
    cases obj with
    | phy => cases hallow
    | mmd => exact absurd rfl hobj
    | mmdC22 => exact absurd rfl hc22
    | mva =>
        unfold Object.Builds at h
        split_ifs at h
        · rw [h, mvaStatusProg]
          simp only [List.append_assoc]
          exact readEmit_begins _ _ _
        · exact pphyCommon_begins h
    | mscc => exact pphyCommon_begins h
    | mvls => exact mvls_begins hnonzero h
    | xrs =>
        exact CommonProg.begins h (xrsDriver_opens c.id) (xrsDriver_pushes c.id)
          fun _ _ _ hdump => mdioCommonDumpProg_begins (xrsDriver_opens c.id)
            (xrsDriver_pushes c.id) rfl hdump hne

/-! ### The exact condition -/

/-- A program that an object with a Clause 22 address sends keeps to Clause 22
exactly when, if it has any instruction, the command line is one that does. -/
theorem keepsToClause22_iff {obj : Object} (hobj : obj ≠ .mmd) {argv : List CStr} {prog : MdioProg}
    (h : (obj.exec argv).Sends prog) :
    KeepsToClause22 obj (argv.headD []) prog ↔ (prog ≠ [] → InClause22 obj argv) := by
  obtain ⟨arg, rest, id, rfl, hid, hbuilds⟩ := Object.exec_sends h
  constructor
  · intro hkeeps hne
    by_contra hout
    obtain ⟨p, d, hbegins⟩ := Object.Builds.begins hobj hid hbuilds hne hout
    exact hbegins.not_keepsToClause22 obj arg hkeeps
  · intro hin
    by_cases hne : prog = []
    · rw [hne]
      exact Accesses.keepsToClause22 .nil
    · exact Accesses.keepsToClause22 (Object.Builds.accesses hobj hid hbuilds (hin hne))

/-- The status of the PHY at address 1 keeps to Clause 22. -/
theorem keepsToClause22_iff_phy :
    KeepsToClause22 .phy "1".toList (phyStatusProg 1) ↔
      (phyStatusProg 1 ≠ [] → InClause22 .phy ["1".toList]) := by
  have hsend : (Object.phy.exec ["1".toList]).Sends (phyStatusProg 1) :=
    Command.Sends.xfer _ xferTimeout (.finish "Unable to read status")
  exact keepsToClause22_iff (by decide) hsend

/-- The Alaska PHY `1:2` is read over Clause 45, and so is the status of the MMD
`1:2` that is to be reached over Clause 22. -/
theorem keepsToClause22_status :
    ((Object.mva.exec ["1:2".toList]).Sends (mvaStatusProg (mvaPphy 0x8022)) ∧
      ¬KeepsToClause22 .mva "1:2".toList (mvaStatusProg (mvaPphy 0x8022))) ∧
    ((Object.mmdC22.exec ["1:2".toList]).Sends (mmdStatusProg 0x8022) ∧
      ¬KeepsToClause22 .mmdC22 "1:2".toList (mmdStatusProg 0x8022)) := by
  have htarget : mdioTarget 0x8022 = .c45 1 2 := by decide
  have hmva : Begins (mdioTarget 0x8022) (mvaStatusProg (mvaPphy 0x8022)) :=
    .first (targets_read 0x8022 0 _) ⟨_, rfl⟩
  have hmmd : Begins (mdioTarget 0x8022) (mmdStatusProg 0x8022) :=
    .second (targets_readReg 0x8022 1 _) ⟨_, rfl⟩
  rw [htarget] at hmva hmmd
  exact ⟨⟨Command.Sends.xfer _ xferTimeout (.finish "Unable to read status"),
      hmva.not_keepsToClause22 _ _⟩,
    Command.Sends.xfer _ xferTimeout (.finish "Unable to read status"),
    hmmd.not_keepsToClause22 _ _⟩

end MdioTools.System
