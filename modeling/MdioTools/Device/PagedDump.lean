import MdioTools.Device.Dump
import MdioTools.Device.Paged

/-!
# The dump of a paged PHY

The dump hook selects the page once, reads all registers of the range, and
restores the page once.  Reading the same registers one by one selects and
restores the page around each of them.  Both emit the same words and leave the
PHY as it was.

Main results:

- Definition {lit}`pphyDumpRange`: the range that the hook leaves for the
  callback.
- Theorem {lit}`pphyDump_agrees`: the dump and the reads one by one.
-/

namespace MdioTools.Device

open Client Kernel Library

/-! ## Register numbers -/

/-- The register number of a register on a page, as `pphy_parse_reg` makes it. -/
def pagedReg (page : BitVec 8) (reg : BitVec 32) : BitVec 32 :=
  reg ||| (page.setWidth 32 <<< 16)

/-- What `pphy_dump` makes of the range that it is given, which the callback gets
then. -/
def pphyDumpRange (range : RegRange) : RegRange :=
  { range with start := range.start &&& 0x1f }

theorem pphyDump_eq (pdev : PphyDevice) (range : RegRange) :
    pphyDump pdev [] range = (pphyDumpRange range).regs.map fun regs =>
      pphyLeave pdev (regs.foldl (fun prog reg => prog ++ readEmit pdev.id reg)
        (pphyEnter pdev [] (pphyPage range.start))) (pphyPage range.start) :=
  rfl

theorem pagedReg_toNat (page : BitVec 8) {reg : BitVec 32} (hreg : reg.toNat ≤ 31) :
    (pagedReg page reg).toNat = page.toNat * 65536 + reg.toNat := by
  have hlt : reg.toNat < 2 ^ 16 := by omega
  have hshift : (page.setWidth 32 <<< 16 : BitVec 32).toNat = page.toNat <<< 16 := by
    have hpage := page.isLt
    rw [BitVec.toNat_shiftLeft, BitVec.toNat_setWidth, Nat.mod_eq_of_lt (by omega),
      Nat.shiftLeft_eq, Nat.mod_eq_of_lt (by omega), Nat.shiftLeft_eq]
  rw [pagedReg, BitVec.or_comm, BitVec.toNat_or, hshift, ← Nat.shiftLeft_add_eq_or_of_lt hlt,
    Nat.shiftLeft_eq]

/-- The parts of a register number. -/
theorem pagedReg_parts (page : BitVec 8) {reg : BitVec 32} (hreg : reg.toNat ≤ 31) :
    pphyPage (pagedReg page reg) = page ∧ pagedReg page reg &&& 0x1f = reg := by
  have hnat := pagedReg_toNat page hreg
  have hpage := page.isLt
  constructor
  · apply BitVec.eq_of_toNat_eq
    simp only [pphyPage, BitVec.toNat_setWidth, BitVec.toNat_ushiftRight, hnat,
      Nat.shiftRight_eq_div_pow]
    omega
  · have hmask : (0x1f : BitVec 32).toNat = 2 ^ 5 - 1 := rfl
    apply BitVec.eq_of_toNat_eq
    rw [BitVec.toNat_and, hmask, Nat.and_two_pow_sub_one_eq_mod, hnat]
    omega

/-! ## What is read -/

variable (pdev : PphyDevice)

/-- What a register of a page reads as while the page is selected. -/
def PagedState.value (s : PagedState) (page reg : BitVec 16) : BitVec 16 :=
  if reg = pdev.pageReg.setWidth 16 then page else s.regs (page, reg)

/-- The words of a range of registers. -/
def PagedState.words (s : PagedState) (page : BitVec 8) (regs : List (BitVec 32)) : Words :=
  regs.map fun reg => (s.value pdev (page.setWidth 16) (reg.setWidth 16)).setWidth 32

/-- A PHY with the page register and the registers of another one. -/
def PagedState.Same (s s' : PagedState) : Prop :=
  s'.page = s.page ∧ s'.regs = s.regs

theorem PagedState.Same.words_eq {s s' : PagedState} (h : s.Same s') (page : BitVec 8)
    (regs : List (BitVec 32)) : s'.words pdev page regs = s.words pdev page regs := by
  simp only [PagedState.words, PagedState.value, h.2]

/-- Behind a page switch and back the PHY is the same. -/
theorem PagedState.same_leave (s : PagedState) (page : BitVec 16) :
    s.Same (if s.page = page then s.enter page else (s.enter page).select s.page) := by
  by_cases hsame : s.page = page
  · rw [if_pos hsame]
    exact ⟨by rw [PagedState.enter_page, hsame], s.enter_regs page⟩
  · rw [if_neg hsame]
    exact ⟨rfl, s.enter_regs page⟩

/-! ## Register by register -/

/-- One register by itself. -/
theorem pphyRead_same (d : VmData Words PagedState) (page : BitVec 8) {reg : BitVec 32}
    (hreg : reg.toNat ≤ 31) :
    ∃ d', Runs (pagedPhy pdev) (dumpFragment (pphyDriver pdev) (pagedReg page reg)) d d' ∧
      d'.host = d.host ++ d.bus.words pdev page [reg] ∧ d.bus.Same d'.bus := by
  obtain ⟨hpage, hlow⟩ := pagedReg_parts page hreg
  have hread := pagedPhy_read pdev
    (({ d with bus := d.bus.enter (page.setWidth 16) }).set 1 d.bus.page) reg 0
  have hall := ((pphyEnter_runs pdev page d).append
    (hread.append (pphyLeave_runs pdev page _))).append
    (Runs.emit (pagedPhy pdev) _ (decodeRi_regArg 0))
  have hprog : dumpFragment (pphyDriver pdev) (pagedReg page reg) = _ :=
    congrArg (· ++ [insn .emit (regArg 0) 0 0]) (pphyRead_nil pdev (pagedReg page reg))
  rw [hpage, hlow] at hprog
  rw [hprog]
  refine ⟨_, hall, ?_, ?_⟩
  · simp [PagedState.words, PagedState.value]
  · simpa using d.bus.same_leave (page.setWidth 16)

/-- The registers of a list one by one. -/
theorem pphyReads_same (page : BitVec 8) {regs : List (BitVec 32)}
    (hregs : ∀ reg ∈ regs, reg.toNat ≤ 31) (d : VmData Words PagedState) :
    ∃ d', Runs (pagedPhy pdev)
        (regs.flatMap fun reg => dumpFragment (pphyDriver pdev) (pagedReg page reg)) d d' ∧
      d'.host = d.host ++ d.bus.words pdev page regs ∧ d.bus.Same d'.bus := by
  induction regs generalizing d with
  | nil => exact ⟨d, Runs.nil, by simp [PagedState.words], rfl, rfl⟩
  | cons reg regs ih =>
      obtain ⟨d₁, hone, hhost, hsame⟩ := pphyRead_same pdev d page (hregs reg List.mem_cons_self)
      obtain ⟨d', hrest, hhost', hsame'⟩ :=
        ih (fun r hr => hregs r (List.mem_cons_of_mem _ hr)) d₁
      refine ⟨d', hone.append hrest, ?_, hsame'.1.trans hsame.1, hsame'.2.trans hsame.2⟩
      rw [hhost', hhost, hsame.words_eq, List.append_assoc]
      rfl

/-! ## The dump -/

/-- The reads of a dump, while the page is selected. -/
theorem readEmits_runs (page : BitVec 8) (regs : List (BitVec 32)) {d : VmData Words PagedState}
    (hpage : d.bus.page = page.setWidth 16) :
    ∃ d', Runs (pagedPhy pdev) (regs.flatMap (readEmit pdev.id)) d d' ∧
      d'.host = d.host ++ d.bus.words pdev page regs ∧ d'.bus = d.bus ∧ d'.regs 1 = d.regs 1 := by
  induction regs generalizing d with
  | nil => exact ⟨d, Runs.nil, by simp [PagedState.words], rfl, rfl⟩
  | cons reg regs ih =>
      have hone := (pagedPhy_read pdev d reg 0).append
        (Runs.emit (pagedPhy pdev) _ (decodeRi_regArg 0))
      obtain ⟨d', hrest, hhost, hbus, hreg1⟩ :=
        ih (d := { d.set (regIndex 0) _ with host := _ }) hpage
      refine ⟨d', hone.append hrest, ?_, hbus, hreg1⟩
      rw [hhost, List.append_assoc]
      simp [PagedState.words, PagedState.value, hpage]

theorem foldl_readEmit (id : BitVec 16) (regs : List (BitVec 32)) (prog : MdioProg) :
    regs.foldl (fun prog reg => prog ++ readEmit id reg) prog =
      prog ++ regs.flatMap (readEmit id) :=
  foldl_fragments (readEmit id) (fun _ _ => rfl) regs prog

theorem pphyLeave_append (prog : MdioProg) (page : BitVec 8) :
    pphyLeave pdev prog page = prog ++ pphyLeave pdev [] page := by
  simp [pphyLeave, mdioProgPush]

/-- The program of a dump. -/
def pphyDumpProg (page : BitVec 8) (regs : List (BitVec 32)) : MdioProg :=
  pphyEnter pdev [] page ++ regs.flatMap (readEmit pdev.id) ++ pphyLeave pdev [] page

/-- The whole dump. -/
theorem pphyDumpProg_runs (page : BitVec 8) (regs : List (BitVec 32))
    (d : VmData Words PagedState) :
    ∃ d', Runs (pagedPhy pdev) (pphyDumpProg pdev page regs) d d' ∧
      d'.host = d.host ++ d.bus.words pdev page regs ∧
      d'.bus = if d.bus.page = page.setWidth 16 then d.bus.enter (page.setWidth 16)
        else (d.bus.enter (page.setWidth 16)).select d.bus.page := by
  obtain ⟨d₁, hreads, hhost, hbus, hreg1⟩ := readEmits_runs pdev page regs
    (d := ({ d with bus := d.bus.enter (page.setWidth 16) }).set 1 d.bus.page) (by simp)
  refine ⟨_, ((pphyEnter_runs pdev page d).append hreads).append (pphyLeave_runs pdev page d₁),
    ?_, ?_⟩
  · rw [hhost]
    simp [PagedState.words, PagedState.value]
  · rw [VmData.set_regs_self] at hreg1
    rw [VmData.set_bus] at hbus
    simp only [hreg1, hbus]

/-! ## Agreement -/

/-- The registers of a range of a paged PHY. -/
theorem upTo_le {start stop : BitVec 32} (hstop : stop.toNat ≤ 31) :
    ∀ reg ∈ upTo start stop, reg.toNat ≤ 31 := by
  intro reg hreg
  have hmem : reg.toNat ∈ (upTo start stop).map BitVec.toNat := List.mem_map_of_mem hreg
  rw [map_toNat_upTo, List.mem_range'_1] at hmem
  omega

/-- The program of the dump hook. -/
theorem pphyDump_eq_some (page : BitVec 8) {start stop : BitVec 32} (hle : start ≤ stop)
    (hstop : stop.toNat ≤ 31) :
    pphyDumpRange ⟨pagedReg page start, stop⟩ = ⟨start, stop⟩ ∧
      pphyDump pdev [] ⟨pagedReg page start, stop⟩ =
        some (pphyDumpProg pdev page (upTo start stop)) := by
  have hstart : start.toNat ≤ 31 := Nat.le_trans hle hstop
  obtain ⟨hpage, hlow⟩ := pagedReg_parts page hstart
  have hrange : pphyDumpRange ⟨pagedReg page start, stop⟩ = ⟨start, stop⟩ := by
    rw [pphyDumpRange, hlow]
  have hlast : stop ≠ BitVec.allOnes 32 := by
    rintro rfl
    exact absurd hstop (by decide)
  have hregs : RegRange.regs ⟨start, stop⟩ = some (upTo start stop) := if_neg hlast
  refine ⟨hrange, ?_⟩
  rw [pphyDump_eq, hrange, hregs, Option.map_some, foldl_readEmit, pphyLeave_append, hpage]
  rfl

theorem upTo_length_le (start : BitVec 32) {stop : BitVec 32} (hstop : stop.toNat ≤ 31) :
    (upTo start stop).length ≤ 32 := by
  rw [upTo_length]
  omega

theorem pphyDumpProg_length (page : BitVec 8) {regs : List (BitVec 32)} (h : regs.length ≤ 32) :
    (pphyDumpProg pdev page regs).length ≤ 512 := by
  have hreads : (regs.flatMap (readEmit pdev.id)).length = regs.length * 2 := by
    simp [List.length_flatMap, readEmit]
  simp only [pphyDumpProg, List.length_append, hreads, pphyEnter, pphyLeave, mdioProgPush,
    List.length_cons, List.length_nil]
  omega

theorem pphyReads_length (page : BitVec 8) {regs : List (BitVec 32)} (h : regs.length ≤ 32) :
    (regs.flatMap fun reg => dumpFragment (pphyDriver pdev) (pagedReg page reg)).length ≤ 512 := by
  have hreads : (regs.flatMap fun reg =>
      dumpFragment (pphyDriver pdev) (pagedReg page reg)).length = regs.length * 7 := by
    simp [List.length_flatMap, dumpFragment, pphyDriver, pphyRead, pphyEnter, pphyLeave,
      mdioProgPush]
  omega

/-- For every paged PHY, every state of it, every page and every range of
registers that the client accepts, the dump hook and the read hook for each
register of the range in order, followed by EMIT, emit the same words and leave
the same page register and registers; and the callback gets the range of the
registers that were read, and prints each of the words against its register. -/
theorem pphyDump_agrees (s : PagedState) (page : BitVec 8) {start stop : BitVec 32}
    (hle : start ≤ stop) (hstop : stop.toNat ≤ 31) :
    ∃ prog words s₁ s₂,
      pphyDump pdev [] ⟨pagedReg page start, stop⟩ = some prog ∧
      (mdioNlEval prog (pagedPhy pdev).bus quietHost).Halts (.entry [] s)
        (.returned .progEnd 0 words s₁) ∧
      (mdioNlEval ((upTo start stop).flatMap fun reg =>
          pphyRead pdev [] (pagedReg page reg) ++ [insn .emit (regArg 0) 0 0])
        (pagedPhy pdev).bus quietHost).Halts (.entry [] s) (.returned .progEnd 0 words s₂) ∧
      s₁.page = s₂.page ∧ s₁.regs = s₂.regs ∧
      pphyDumpRange ⟨pagedReg page start, stop⟩ = ⟨start, stop⟩ ∧
      words = (upTo start stop).map (fun reg =>
        (s.value pdev (page.setWidth 16) (reg.setWidth 16)).setWidth 32) ∧
      ∀ err, mdioCommonDumpCb words err (pphyDumpRange ⟨pagedReg page start, stop⟩) err
        (List.zipWith (fun reg word => some (dumpLine reg word)) (upTo start stop) words) := by
  obtain ⟨hrange, hprog⟩ := pphyDump_eq_some pdev page hle hstop
  have hlen := upTo_length_le start hstop
  obtain ⟨d₁, hdump, hhost₁, hbus₁⟩ :=
    pphyDumpProg_runs pdev page (upTo start stop) ⟨fun _ => 0, [], s⟩
  have hsame₁ : s.Same d₁.bus := hbus₁ ▸ s.same_leave (page.setWidth 16)
  obtain ⟨d₂, hreads, hhost₂, hsame₂⟩ :=
    pphyReads_same pdev page (upTo_le hstop) ⟨fun _ => 0, [], s⟩
  have hhalts₁ := hdump.halts (pphyDumpProg_length pdev page hlen)
  have hhalts₂ := hreads.halts (pphyReads_length pdev page hlen)
  rw [hhost₁] at hhalts₁
  rw [hhost₂] at hhalts₂
  refine ⟨_, _, d₁.bus, d₂.bus, hprog, hhalts₁, hhalts₂, hsame₁.1.trans hsame₂.1.symm,
    hsame₁.2.trans hsame₂.2.symm, hrange, rfl, fun err => ?_⟩
  have hlast : stop ≠ BitVec.allOnes 32 := by
    rintro rfl
    exact absurd hstop (by decide)
  have hwords : (s.words pdev page (upTo start stop)).length = (upTo start stop).length :=
    List.length_map _
  have hcb := mdioCommonDumpCb_upTo ⟨start, stop⟩ hle hlast (s.words pdev page (upTo start stop))
    err (by rw [hwords]; omega)
  rw [if_pos hwords] at hcb
  rw [hrange]
  exact hcb

/-- The hypotheses are met by registers 20 to 23 of the fiber page of an Alaska
PHY, of which 22 is the page register. -/
theorem pphyDump_agrees_fiber : ∃ (prog : MdioProg) (words : Words) (s₁ : PagedState),
    pphyDump ⟨1, 0x16⟩ [] ⟨0x10014, 23⟩ = some prog ∧
      (mdioNlEval prog (pagedPhy ⟨1, 0x16⟩).bus quietHost).Halts
        (.entry [] ⟨5, fun a => a.1 + a.2, []⟩) (.returned .progEnd 0 words s₁) := by
  obtain ⟨prog, words, s₁, -, hprog, hhalts, -⟩ := pphyDump_agrees ⟨1, 0x16⟩
    ⟨5, fun a => a.1 + a.2, []⟩ 1 (show (20 : BitVec 32) ≤ 23 by decide) (by decide)
  exact ⟨prog, words, s₁, hprog, hhalts⟩

end MdioTools.Device
