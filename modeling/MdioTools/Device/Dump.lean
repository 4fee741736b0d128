import MdioTools.Client.Exec
import MdioTools.Device.BusAccess
import MdioTools.Library.CountLoop
import MdioTools.Library.Printf

/-!
# Unrolled dumps

For a driver without a dump hook the client unrolls the dump: a loop over the
registers pushes one read and one EMIT for each.  The callback has the same loop
once more, over the words that come back.  Both loops are inclusive and count in
32 bits, so a range that ends with the largest register number never ends.  The
registers of an XRS switch have even numbers, which is not checked, and its read hook
reads an even one for each number.

Main results:

- Definitions {lit}`dumpLoop` and {lit}`mdioCommonDumpCb`: the two loops.
- Theorem {lit}`dumpLoop_halts_iff`: the loop and the program of
  {lit}`mdioCommonDumpProg`.
- Definitions {lit}`DumpBuilds` and {lit}`DumpCovers`: what a dump of a range should
  do.
- Theorem {lit}`dumpCovers_iff`: it does so unless the range is one of an XRS
  switch that is not a single even register.
-/

namespace MdioTools.Device

open Client Kernel Library

/-! ## The two loops -/

/-- The loop of `mdio_common_dump_exec_one` that builds the program. -/
def dumpLoop (drv : MdioDriver) (stop : BitVec 32) : Machine (BitVec 32 × MdioProg) MdioProg :=
  countLoop (fun reg prog => dumpOne drv prog reg) stop

/-- A line of a dump. -/
def dumpLine (reg word : BitVec 32) : CStr :=
  "0x".toList ++ padLeft 4 '0' (hex reg.toNat) ++ ": 0x".toList ++
    padLeft 4 '0' (hex word.toNat) ++ "\n".toList

/-- The variables of the loop of `mdio_common_dump_cb`: the words from `data` on,
and the lines printed, of which one without a word stands for a read behind the
end of the words. -/
structure DumpCbState where
  data : List (BitVec 32)
  lines : List (Option CStr)

/-- The loop of `mdio_common_dump_cb`. -/
def dumpCbLoop (stop : BitVec 32) : Machine (BitVec 32 × DumpCbState) DumpCbState :=
  countLoop (fun reg s => ⟨s.data.tail, s.lines ++ [s.data.head?.map (dumpLine reg)]⟩) stop

/-- `mdio_common_dump_cb` returns a value and has printed some lines.  The length
is an `int`. -/
def mdioCommonDumpCb (data : List (BitVec 32)) (err : Int) (range : RegRange) (ret : Int)
    (lines : List (Option CStr)) : Prop :=
  if BitVec.ofNat 32 data.length ≠ range.stop - range.start + 1 then ret = 1 ∧ lines = []
  else ret = err ∧ ∃ s, (dumpCbLoop range.stop).Halts (range.start, ⟨data, []⟩) s ∧
    s.lines = lines

/-- The loop builds the program that the client sends, and ends if there is
one. -/
theorem dumpLoop_halts_iff {drv : MdioDriver} (hdump : drv.dump = none) (range : RegRange)
    (prog : MdioProg) : (dumpLoop drv range.stop).Halts (range.start, []) prog ↔
      mdioCommonDumpProg drv range = some prog := by
  simp only [mdioCommonDumpProg, hdump, RegRange.regs]
  by_cases hstop : range.stop = BitVec.allOnes 32
  · rw [if_pos hstop, dumpLoop, hstop]
    exact iff_of_false (countLoop_not_halts _ _ _ _) (by simp)
  · have hhalts := countLoop_halts (fun reg prog => dumpOne drv prog reg) hstop range.start []
    rw [if_neg hstop, Option.map_some, Option.some.injEq]
    exact ⟨fun h => hhalts.unique h, fun h => h ▸ hhalts⟩

/-! ## What a dump should do -/

/-- The fragment of one register. -/
def dumpFragment (drv : MdioDriver) (reg : BitVec 32) : MdioProg :=
  drv.read [] reg ++ [insn .emit (regArg 0) 0 0]

/-- A line of text shows a register and a word: both in at least four hexadecimal
digits. -/
def DumpShown (reg word : BitVec 32) (line : CStr) : Prop :=
  ∃ r v, HexField 4 reg.toNat r ∧ HexField 4 word.toNat v ∧
    line = "0x".toList ++ r ++ ": 0x".toList ++ v ++ "\n".toList

/-- A dump builds and shows its range: the loop ends with one fragment for each
register, in ascending order, and the length of the program is counted all the way;
run on any device the fragments, if they are within the kernel's limit, emit what the
read hook reads; and the callback takes as many words as there are registers, prints
each against its register, and rejects any other number of words. -/
def DumpBuilds (drv : KnownDriver) (range : RegRange) : Prop :=
  ∃ regs : List (BitVec 32),
    regs.map BitVec.toNat =
      List.range' range.start.toNat (range.stop.toNat + 1 - range.start.toNat) ∧
    (dumpLoop drv.driver range.stop).Halts (range.start, []) (regs.flatMap (dumpFragment drv.driver)) ∧
    MdioProg.Counted (regs.flatMap (dumpFragment drv.driver)) ∧
    (∀ (β : Type) (dev : Device β) (b b' : β) (vs : List (BitVec 16)),
      (regs.flatMap (dumpFragment drv.driver)).length ≤ 512 → ReadsEach dev drv b regs vs b' →
      (mdioNlEval (regs.flatMap (dumpFragment drv.driver)) dev.bus quietHost).Halts (.entry [] b)
        (.returned .progEnd 0 (vs.map (·.setWidth 32)) b')) ∧
    ∀ (words : List (BitVec 32)) (err : Int), words.length < 2 ^ 32 →
      if words.length = regs.length then
        ∃ lines : List CStr, mdioCommonDumpCb words err range err (lines.map some) ∧
          List.Forall₂ (fun row line => DumpShown row.1 row.2 line) (regs.zip words) lines
      else mdioCommonDumpCb words err range 1 []

/-! ## The program -/

section Program

variable {β : Type} {dev : Device β} {drv : KnownDriver}

theorem foldl_dumpOne (drv : KnownDriver) (regs : List (BitVec 32)) (prog : MdioProg) :
    regs.foldl (dumpOne drv.driver) prog = prog ++ regs.flatMap (dumpFragment drv.driver) :=
  foldl_fragments _ drv.relocates.dumpOne_append regs prog

/-- The fragments emit what they read. -/
theorem dumpFragments_runs {b b' : β} {regs : List (BitVec 32)} {vs : List (BitVec 16)}
    (h : ReadsEach dev drv b regs vs b') {d : VmData Words β} (hd : d.bus = b) :
    ∃ d', Runs dev (regs.flatMap (dumpFragment drv.driver)) d d' ∧
      d'.host = d.host ++ vs.map (·.setWidth 32) ∧ d'.bus = b' := by
  induction h generalizing d with
  | nil => exact ⟨d, Runs.nil, by simp, hd⟩
  | cons hread _ ih =>
      subst hd
      obtain ⟨d₁, hrun, hkeeps, hreg0, hbus⟩ := KnownDriver.read_runs hread
      have hemit := Runs.emit dev d₁ (decodeRi_regArg 0)
      obtain ⟨d', hrest, hhost, hbus'⟩ :=
        ih (d := { d₁ with host := d₁.host ++ [(d₁.regs 0).setWidth 32] }) hbus
      refine ⟨d', (hrun.append hemit).append hrest, ?_, hbus'⟩
      rw [hhost, hkeeps.host, hreg0, List.map_cons, List.append_assoc]
      rfl

end Program

/-! ## The callback -/

/-- The text of a line shows it. -/
theorem dumpShown_dumpLine (reg word : BitVec 32) : DumpShown reg word (dumpLine reg word) :=
  ⟨_, _, hexField_padLeft (by decide) _, hexField_padLeft (by decide) _, rfl⟩

/-- The lines of as many words as there are registers. -/
theorem dumpCb_foldl {regs words : List (BitVec 32)} (h : words.length = regs.length)
    (lines : List (Option CStr)) :
    regs.foldl (fun (s : DumpCbState) reg =>
        ⟨s.data.tail, s.lines ++ [s.data.head?.map (dumpLine reg)]⟩) ⟨words, lines⟩ =
      ⟨[], lines ++ List.zipWith (fun reg word => some (dumpLine reg word)) regs words⟩ := by
  induction regs generalizing words lines with
  | nil => simp [List.length_eq_zero_iff.mp h]
  | cons reg regs ih =>
      cases words with
      | nil => cases h
      | cons word words =>
          rw [List.foldl_cons, List.tail_cons, List.head?_cons, Option.map_some,
            ih (Nat.succ.inj h), List.zipWith_cons_cons, List.append_assoc]
          rfl

/-- The number of registers, in the arithmetic of the callback. -/
theorem ofNat_eq_count_iff {start stop : BitVec 32} (hle : start ≤ stop)
    (hstop : stop ≠ BitVec.allOnes 32) {n : Nat} (hn : n < 2 ^ 32) :
    BitVec.ofNat 32 n = stop - start + 1 ↔ n = stop.toNat + 1 - start.toNat := by
  have hle' : start.toNat ≤ stop.toNat := hle
  have hlast : stop.toNat ≠ 2 ^ 32 - 1 := fun heq => hstop (BitVec.eq_of_toNat_eq heq)
  have hlt := stop.isLt
  rw [← BitVec.toNat_inj]
  simp only [BitVec.ofNat_eq_ofNat, BitVec.toNat_ofNat, BitVec.toNat_add, BitVec.toNat_sub]
  omega

/-- The callback takes as many words as there are registers, and no other
number. -/
theorem mdioCommonDumpCb_upTo (range : RegRange) (hle : range.start ≤ range.stop)
    (hstop : range.stop ≠ BitVec.allOnes 32) (words : List (BitVec 32)) (err : Int)
    (hlt : words.length < 2 ^ 32) :
    if words.length = (upTo range.start range.stop).length then
      mdioCommonDumpCb words err range err
        (List.zipWith (fun reg word => some (dumpLine reg word)) (upTo range.start range.stop) words)
    else mdioCommonDumpCb words err range 1 [] := by
  have hcount := ofNat_eq_count_iff hle hstop hlt
  rw [← upTo_length] at hcount
  unfold mdioCommonDumpCb
  by_cases hlen : words.length = (upTo range.start range.stop).length
  · rw [if_pos hlen, if_neg (not_not.mpr (hcount.mpr hlen))]
    have hloop := countLoop_halts (fun reg (s : DumpCbState) =>
      ⟨s.data.tail, s.lines ++ [s.data.head?.map (dumpLine reg)]⟩) hstop range.start ⟨words, []⟩
    rw [dumpCb_foldl hlen] at hloop
    exact ⟨rfl, _, hloop, rfl⟩
  · rw [if_neg hlen, if_pos (fun heq => hlen (hcount.mp heq))]
    exact ⟨rfl, rfl⟩

/-! ## The objects without a dump hook -/

/-- The objects whose driver has no dump hook and whose registers can be given
as a range. -/
inductive DumpObject
  | phy | mmd | mmdC22 | xrs
deriving DecidableEq, Repr

/-- The driver of an object for a device address. -/
def DumpObject.known (id : BitVec 16) : DumpObject → KnownDriver
  | .phy | .mmd => .phy id
  | .mmdC22 => .mmdC22 id
  | .xrs => .xrs id

/-- The largest register number, `mem.max`. -/
def DumpObject.max : DumpObject → BitVec 32
  | .phy => 31
  | .mmd | .mmdC22 => 0xffff
  | .xrs => BitVec.allOnes 32

/-- The device of an object for a device address. -/
def DumpObject.device (id : BitVec 16) (o : DumpObject) : MdioDevice :=
  ⟨(o.known id).driver, mdioDeviceDfltParseReg o.max, 16⟩

/-- The devices are those of the commands. -/
theorem DumpObject.exec_eq (argv : List CStr) :
    phyExec argv = (withDev false argv fun id rest =>
      if isStatus rest then statusExec (phyStatusProg id)
      else mdioCommonExec (DumpObject.phy.device id) rest) ∧
    (∀ o drv, (o, drv) ∈ [(DumpObject.mmd, phyDriver), (.mmdC22, mmdC22Driver)] →
      mmdExecWith drv argv = withDev true argv fun id rest =>
        if id &&& mdioPhyIdC45 = 0 then
          .exit 1 ["ERROR: Expected Clause 45 (PRTAD:DEVAD) address"]
        else if isStatus rest then statusExec (mmdStatusProg id)
        else mdioCommonExec (o.device id) rest) ∧
    xrsExec argv = withDev true argv fun id rest =>
      match rest with
      | [] => .exit 1 []
      | _ => mdioCommonExec (DumpObject.xrs.device id) rest := by
  refine ⟨rfl, fun o drv hmem => ?_, rfl⟩
  simp only [List.mem_cons, Prod.mk.injEq, List.not_mem_nil, or_false] at hmem
  rcases hmem with ⟨rfl, rfl⟩ | ⟨rfl, rfl⟩ <;> rfl

/-- The transactions that read the register with a number.  A PHY and an MMD have their
registers by 16-bit number; the Clause 22 registers 13 and 14 select that of an MMD;
and an XRS switch has the number in IBA1 and IBA0 when IBD is read. -/
def DumpObject.RegRead {β : Type} (dev : Device β) (id : BitVec 16) (n : Nat) (b : β)
    (v : BitVec 16) (b' : β) : DumpObject → Prop
  | .phy | .mmd => ∃ r : BitVec 16, r.toNat = n ∧ dev.read (mdioTarget id) r b = (v, b')
  | .mmdC22 => ∃ r : BitVec 16, r.toNat = n ∧
      let t := mdioTarget ((mmdC22Prtad id).setWidth 16)
      let mmd : BitVec 16 := (mmdC22Devad id).setWidth 16
      dev.read t 14 (dev.write t 13 (mmd ||| 1 <<< 14) (dev.write t 14 r (dev.write t 13 mmd b))) =
        (v, b')
  | .xrs => ∃ high low : BitVec 16, high.toNat * 2 ^ 16 + low.toNat = n ∧
      let t := mdioTarget id
      dev.read t 0x14 (dev.write t 0x10 low (dev.write t 0x11 high b)) = (v, b')

/-- The fragment of a register reads that register and emits its word, on any
device. -/
def ReadsOwn (o : DumpObject) (id : BitVec 16) (reg : BitVec 32) : Prop :=
  ∀ (β : Type) (dev : Device β) (d : VmData Words β) (v : BitVec 16) (b' : β),
    o.RegRead dev id reg.toNat d.bus v b' →
    ∃ d', Runs dev (dumpFragment (o.known id).driver reg) d d' ∧
      d'.host = d.host ++ [v.setWidth 32] ∧ d'.bus = b'

/-- A dump covers its range: it is built and shown, and each word is printed against the
register that it has been read from. -/
def DumpCovers (o : DumpObject) (id : BitVec 16) (range : RegRange) : Prop :=
  DumpBuilds (o.known id) range ∧
    ∀ reg, range.start ≤ reg → reg ≤ range.stop → ReadsOwn o id reg

/-! ## The registers that are read -/

/-- The low half of an even register number is left as it is. -/
theorem xrsLow_eq {reg : BitVec 32} (heven : reg.getLsbD 0 = false) :
    ((reg &&& 0xfffe).setWidth 16 : BitVec 16) = reg.setWidth 16 := by
  ext i hi
  by_cases hzero : i = 0
  · subst hzero
    simpa using heven
  · have hall : ∀ i : Fin 16, i.val ≠ 0 → (0xfffe : BitVec 16).getLsbD i = true := by decide
    have hmask := hall ⟨i, hi⟩ hzero
    simpa [← BitVec.getLsbD_eq_getElem, hi] using fun _ => hmask

/-- The number in IBA1 and IBA0. -/
theorem eq_halves {reg : BitVec 32} {high low : BitVec 16}
    (h : high.toNat * 2 ^ 16 + low.toNat = reg.toNat) :
    high = (reg >>> 16).setWidth 16 ∧ low = reg.setWidth 16 := by
  have hhigh := high.isLt
  have hlow := low.isLt
  constructor <;> apply BitVec.eq_of_toNat_eq
  · rw [BitVec.toNat_setWidth, BitVec.toNat_ushiftRight, Nat.shiftRight_eq_div_pow, ← h]
    omega
  · rw [BitVec.toNat_setWidth, ← h]
    omega

/-- The read hook reads the register with its number, for an XRS switch if it is
even. -/
theorem DumpObject.RegRead.busRead {β : Type} {dev : Device β} {o : DumpObject} {id : BitVec 16}
    {reg : BitVec 32} {b : β} {v : BitVec 16} {b' : β} (h : o.RegRead dev id reg.toNat b v b')
    (heven : o = .xrs → reg.getLsbD 0 = false) : (o.known id).BusRead dev reg b v b' := by
  have hlow : ∀ r : BitVec 16, r.toNat = reg.toNat → r = reg.setWidth 16 := fun r hr =>
    (eq_halves (show (0 : BitVec 16).toNat * 2 ^ 16 + r.toNat = reg.toNat by simpa using hr)).2
  cases o with
  | phy =>
      obtain ⟨r, hr, hread⟩ := h
      obtain rfl := hlow r hr
      exact hread
  | mmd =>
      obtain ⟨r, hr, hread⟩ := h
      obtain rfl := hlow r hr
      exact hread
  | mmdC22 =>
      obtain ⟨r, hr, hread⟩ := h
      obtain rfl := hlow r hr
      exact hread
  | xrs =>
      obtain ⟨high, low, hnumber, hread⟩ := h
      obtain ⟨rfl, rfl⟩ := eq_halves hnumber
      have hword := xrsLow_eq (heven rfl)
      rw [← hword] at hread
      exact hread

/-- So the fragment of the register emits its word. -/
theorem readsOwn {o : DumpObject} {id : BitVec 16} {reg : BitVec 32}
    (heven : o = .xrs → reg.getLsbD 0 = false) : ReadsOwn o id reg := by
  intro β dev d v b' hread
  obtain ⟨d', hrun, hhost, hbus⟩ :=
    dumpFragments_runs (.cons (hread.busRead heven) (.nil b')) (d := d) rfl
  rw [List.flatMap_singleton] at hrun
  exact ⟨d', hrun, hhost, hbus⟩

/-- A device that keeps the last word that has been written to IBA0, and reads as
it. -/
def iba0Device : Device (BitVec 16) where
  read _ _ b := (b, b)
  write _ reg val b := if reg = 0x10 then val else b

/-- An odd register of an XRS switch is not what its fragment reads. -/
theorem not_readsOwn_odd {id : BitVec 16} {reg : BitVec 32} (hodd : reg.getLsbD 0 = true) :
    ¬ReadsOwn .xrs id reg := by
  intro hown
  let low : BitVec 16 := reg.setWidth 16
  let even : BitVec 16 := (reg &&& 0xfffe).setWidth 16
  have hnumber : ((reg >>> 16).setWidth 16 : BitVec 16).toNat * 2 ^ 16 + low.toNat = reg.toNat := by
    simp only [low, BitVec.toNat_setWidth, BitVec.toNat_ushiftRight, Nat.shiftRight_eq_div_pow]
    have hlt := reg.isLt
    omega
  obtain ⟨d₁, hrun₁, hhost₁, -⟩ := hown _ iba0Device ⟨fun _ => 0, [], 0⟩ low low
    ⟨_, low, hnumber, by simp [iba0Device]⟩
  have hread : (KnownDriver.xrs id).BusRead iba0Device reg 0 even even := by
    simp [KnownDriver.BusRead, iba0Device, even]
  obtain ⟨d₂, hrun₂, hhost₂, -⟩ := dumpFragments_runs (.cons hread (.nil even))
    (d := ⟨fun _ => 0, [], 0⟩) rfl
  rw [List.flatMap_singleton] at hrun₂
  have hlen : (dumpFragment (KnownDriver.xrs id).driver reg).length ≤ 512 := by
    simp [dumpFragment, KnownDriver.driver, xrsDriver, xrsRead, mdioProgPush]
  -- one run cannot emit both
  have hsame := (hrun₁.halts hlen).unique (hrun₂.halts hlen)
  simp only [EvalResult.returned.injEq, true_and] at hsame
  have hwords : low.setWidth 32 = even.setWidth 32 := by
    have h := hsame.1
    rw [hhost₁, hhost₂] at h
    simpa using h
  have hbit : (low.setWidth 32).getLsbD 0 = (even.setWidth 32).getLsbD 0 := by rw [hwords]
  have heven : reg[0] = false := by simpa [low, even] using hbit
  rw [BitVec.getLsbD_eq_getElem (by decide), heven] at hodd
  cases hodd

/-! ## Which ranges are covered -/

/-- Only an XRS switch has registers with more than 16-bit numbers. -/
theorem DumpObject.stop_le {o : DumpObject} (ho : o ≠ .xrs) {id : BitVec 16} {arg : CStr}
    {range : RegRange}
    (hparse : (o.device id).parseReg (some arg) true = .ok (range.start, range.stop)) :
    range.stop.toNat ≤ 0xffff := by
  have hle : range.stop ≤ o.max := (mdioParseRange_le hparse).2
  have hmax : o.max.toNat ≤ 0xffff := by
    cases o with
    | phy => decide
    | mmd => decide
    | mmdC22 => decide
    | xrs => exact absurd rfl ho
  exact Nat.le_trans hle hmax

/-- The instructions of a fragment. -/
theorem dumpFragment_length (o : DumpObject) (id : BitVec 16) (reg : BitVec 32) :
    (dumpFragment (o.known id).driver reg).length =
      match o with
      | .phy | .mmd => 2
      | .mmdC22 => 5
      | .xrs => 4 := by
  cases o <;> simp [dumpFragment, DumpObject.known, KnownDriver.driver, phyDriver, phyRead,
    mmdC22Driver, mmdC22Read, mmdC22Address, xrsDriver, xrsRead, mdioProgPush]

/-- The instructions of a range. -/
theorem dumpFragments_length (o : DumpObject) (id : BitVec 16) (regs : List (BitVec 32)) :
    (regs.flatMap (dumpFragment (o.known id).driver)).length = regs.length *
      match o with
      | .phy | .mmd => 2
      | .mmdC22 => 5
      | .xrs => 4 := by
  simp only [List.length_flatMap, dumpFragment_length, List.map_const', List.sum_replicate_nat]

/-- The length of the program is counted, if there are not too many registers of an XRS
switch. -/
theorem dumpFragments_counted (o : DumpObject) (id : BitVec 16) {start stop : BitVec 32}
    (hsmall : o ≠ .xrs → stop.toNat ≤ 0xffff)
    (hxrs : o = .xrs → stop.toNat + 1 - start.toNat < 2 ^ 29) :
    MdioProg.Counted ((upTo start stop).flatMap (dumpFragment (o.known id).driver)) := by
  have hlen := dumpFragments_length o id (upTo start stop)
  rw [upTo_length] at hlen
  rw [MdioProg.Counted, hlen]
  by_cases ho : o = .xrs
  · subst ho
    have hcount := hxrs rfl
    dsimp only
    omega
  · have hstop := hsmall ho
    cases o <;> dsimp only <;> omega

/-- The callback shows as many words as there are registers, each against its register,
and no other number of words. -/
theorem mdioCommonDumpCb_shown {range : RegRange} (hle : range.start ≤ range.stop)
    (hstop : range.stop ≠ BitVec.allOnes 32) {words : List (BitVec 32)} (err : Int)
    (hlt : words.length < 2 ^ 32) :
    if words.length = (upTo range.start range.stop).length then
      ∃ lines : List CStr, mdioCommonDumpCb words err range err (lines.map some) ∧
        List.Forall₂ (fun row line => DumpShown row.1 row.2 line)
          ((upTo range.start range.stop).zip words) lines
    else mdioCommonDumpCb words err range 1 [] := by
  have hcb := mdioCommonDumpCb_upTo range hle hstop words err hlt
  by_cases hlen : words.length = (upTo range.start range.stop).length
  · rw [if_pos hlen] at hcb ⊢
    refine ⟨List.zipWith dumpLine (upTo range.start range.stop) words, ?_, ?_⟩
    · rwa [List.map_zipWith]
    · rw [← List.map_uncurry_zip_eq_zipWith, List.forall₂_map_right_iff]
      exact List.forall₂_same.mpr fun row _ => dumpShown_dumpLine row.1 row.2
  · rwa [if_neg hlen] at hcb ⊢

/-- An accepted range is built and shown unless it is one of an XRS switch that ends with
the largest 32-bit number, or has so many registers that the length of the program is
no longer counted. -/
theorem dumpBuilds_iff (o : DumpObject) (id : BitVec 16) (arg : CStr) (range : RegRange)
    (hparse : (o.device id).parseReg (some arg) true = .ok (range.start, range.stop))
    (hle : range.start ≤ range.stop) :
    DumpBuilds (o.known id) range ↔ (o = .xrs → range.stop ≠ BitVec.allOnes 32 ∧
      range.stop.toNat + 1 - range.start.toNat < 2 ^ 29) := by
  constructor
  · rintro ⟨regs, hregs, hhalts, hcounted, -⟩ rfl
    refine ⟨fun hstop => ?_, ?_⟩
    · rw [hstop] at hhalts
      exact countLoop_not_halts _ _ _ _ hhalts
    · have hlen := dumpFragments_length .xrs id regs
      have hcount := congrArg List.length hregs
      rw [List.length_map, List.length_range'] at hcount
      have hbound : (regs.flatMap (dumpFragment (DumpObject.xrs.known id).driver)).length < 2 ^ 31 :=
        hcounted
      simp only [hcount] at hlen
      omega
  · intro hxrs
    have hstop : range.stop ≠ BitVec.allOnes 32 := by
      by_cases ho : o = .xrs
      · exact (hxrs ho).1
      · intro heq
        have hsmall := DumpObject.stop_le ho hparse
        rw [heq] at hsmall
        exact absurd hsmall (by decide)
    refine ⟨upTo range.start range.stop, map_toNat_upTo _ _, ?_, ?_, ?_, fun words err hlt => ?_⟩
    · have hhalts := countLoop_halts (fun reg prog => dumpOne (o.known id).driver prog reg) hstop
        range.start []
      rwa [foldl_dumpOne] at hhalts
    · exact dumpFragments_counted o id (fun ho => DumpObject.stop_le ho hparse)
        fun ho => (hxrs ho).2
    · intro β dev b b' vs hlen hreads
      obtain ⟨d', hrun, hhost, hbus⟩ := dumpFragments_runs hreads (d := ⟨fun _ => 0, [], b⟩) rfl
      have hhalts := hrun.halts hlen
      rwa [hhost, hbus] at hhalts
    · exact mdioCommonDumpCb_shown hle hstop err hlt

/-- A dump of an accepted range covers it unless the range is one of an XRS switch that
is not a single even register.  All but the registers that are read is right for other
ranges of an XRS switch too, as long as they do not end with the largest number and
their programs are counted. -/
theorem dumpCovers_iff (o : DumpObject) (id : BitVec 16) (arg : CStr) (range : RegRange)
    (hparse : (o.device id).parseReg (some arg) true = .ok (range.start, range.stop))
    (hle : range.start ≤ range.stop) :
    (DumpCovers o id range ↔
      (o = .xrs → range.start = range.stop ∧ range.start.getLsbD 0 = false)) ∧
    (DumpBuilds (o.known id) range ↔ (o = .xrs → range.stop ≠ BitVec.allOnes 32 ∧
      range.stop.toNat + 1 - range.start.toNat < 2 ^ 29)) := by
  have hbuilds := dumpBuilds_iff o id arg range hparse hle
  refine ⟨⟨?_, fun hsingle => ⟨hbuilds.mpr fun ho => ?_, fun reg hstart hstop => ?_⟩⟩, hbuilds⟩
  · rintro ⟨hbuilt, hown⟩ rfl
    have heven : ∀ reg, range.start ≤ reg → reg ≤ range.stop → reg.getLsbD 0 = false := by
      intro reg hstart hstop
      by_contra hodd
      exact not_readsOwn_odd (eq_true_of_ne_false hodd) (hown reg hstart hstop)
    refine ⟨?_, heven _ (BitVec.le_refl _) hle⟩
    by_contra hne
    -- of two registers in a row one is odd
    have hlt : range.start.toNat < range.stop.toNat :=
      Nat.lt_of_le_of_ne hle fun heq => hne (BitVec.eq_of_toNat_eq heq)
    have hnext : (range.start + 1).toNat = range.start.toNat + 1 :=
      toNat_succ_of_le hle (hbuilds.mp hbuilt rfl).1
    have hfirst := heven range.start (BitVec.le_refl _) hle
    have hsecond := heven (range.start + 1) (by rw [BitVec.le_def]; omega)
      (by rw [BitVec.le_def]; omega)
    rw [BitVec.getLsbD, Nat.testBit_zero, decide_eq_false_iff_not] at hfirst hsecond
    omega
  · obtain ⟨heq, heven⟩ := hsingle ho
    rw [← heq]
    refine ⟨fun hlast => ?_, by omega⟩
    rw [hlast] at heven
    exact absurd heven (by decide)
  · refine readsOwn fun ho => ?_
    obtain ⟨heq, heven⟩ := hsingle ho
    obtain rfl : reg = range.start := BitVec.le_antisymm (heq ▸ hstop) hstart
    exact heven

/-- The hypotheses are met by registers 2 to 5 of a PHY, and by registers 0 and 1 of an
XRS switch, of which the second is not covered. -/
theorem dumpCovers_iff_phy :
    DumpCovers .phy 1 ⟨2, 5⟩ ∧ ¬DumpCovers .xrs 1 ⟨0, 1⟩ ∧ DumpBuilds (.xrs 1) ⟨0, 1⟩ := by
  have hphy := dumpCovers_iff .phy 1 "2-5".toList ⟨2, 5⟩ rfl (by decide)
  have hxrs := dumpCovers_iff .xrs 1 "0-1".toList ⟨0, 1⟩ rfl (by decide)
  refine ⟨hphy.1.mpr (fun h => nomatch h), fun hcovers => ?_, hxrs.2.mpr fun _ => by decide⟩
  exact absurd (hxrs.1.mp hcovers rfl).1 (by decide)

/-- The last 16 registers of an XRS switch are accepted, and the loop that
builds the program does not end. -/
theorem not_dumpCovers_xrs : ¬∀ (o : DumpObject) (id : BitVec 16) (arg : CStr) (range : RegRange),
    (o.device id).parseReg (some arg) true = .ok (range.start, range.stop) →
    range.start ≤ range.stop → DumpCovers o id range := by
  intro hall
  obtain ⟨⟨regs, -, hhalts, -⟩, -⟩ := hall .xrs 1 "0xfffffff0-0xffffffff".toList
    ⟨0xfffffff0, 0xffffffff⟩ rfl (by decide)
  exact countLoop_not_halts _ _ _ _ hhalts

end MdioTools.Device
