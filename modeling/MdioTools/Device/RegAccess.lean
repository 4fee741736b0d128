import MdioTools.Client.Driver
import MdioTools.Kernel.Fragment

/-!
# Register access through a driver

What a driver is for: its read hook pushes a fragment that reads one register of
a device, its write hook one that writes it.  The common operations are built on
these two hooks only, so what they do follows for every driver at once from what
the two fragments do.

Main results:

- Definition {lit}`RegAccess`: the contract of a driver on a device.
- Theorems {lit}`RegAccess.raw_read`, {lit}`RegAccess.raw_write` and
  {lit}`RegAccess.raw_masked`: the raw operations.
- Theorems {lit}`RegAccess.bench_read`, {lit}`RegAccess.bench_write` and
  {lit}`RegAccess.dump`: the long operations.
- Theorems {lit}`RegAccess.raw_halts`, {lit}`RegAccess.bench_halts` and
  {lit}`RegAccess.dump_halts`: the operations of a driver that stores the value
  of its operands, run by {lit}`mdio_nl_eval`.
- Theorem {lit}`RegAccess.anyPosition`: its fragments inside a longer program.
-/

namespace MdioTools.Device

open Client Kernel

/-! ## Operands -/

/-- The operands that the common operations hand to the write hook: a value,
register 0 in a masked write, register 7 in a benchmark. -/
inductive WriteOperand
  | imm (val : BitVec 32)
  | raw
  | bench

/-- The operand word. -/
def WriteOperand.word : WriteOperand → BitVec 32
  | .imm val => immArg val
  | .raw => regArg 0
  | .bench => regArg 7

/-- The operand as the kernel decodes it. -/
def WriteOperand.operand : WriteOperand → Operand
  | .imm val => .imm (val.setWidth 16)
  | .raw => .reg 0
  | .bench => .reg 7

/-- The value the operand has at run time. -/
def WriteOperand.value (o : WriteOperand) (regs : Regs) : BitVec 16 :=
  o.operand.eval regs

/-- An operand of a write is decoded as what it is. -/
@[simp]
theorem WriteOperand.decode (o : WriteOperand) :
    decodeRi (o.word.setWidth 18) = some o.operand := by
  cases o with
  | imm val => exact decodeRi_immArg val
  | raw => exact decodeRi_regArg 0
  | bench => exact decodeRi_regArg 7

/-- The registers that the common operations name. -/
@[simp]
theorem regIndex_named :
    regIndex 0#32 = 0 ∧ regIndex 1#32 = 1 ∧ regIndex 6#32 = 6 ∧ regIndex 7#32 = 7 := by
  decide

/-! ## The contract of a driver -/

/-- A fragment keeps the emitted words and the registers that the common
operations use around it. -/
structure Keeps {β : Type} (d d' : VmData Words β) : Prop where
  host : d'.host = d.host
  reg6 : d'.regs 6 = d.regs 6
  reg7 : d'.regs 7 = d.regs 7

/-- The hooks of a driver push short fragments that do not depend on what is in
front of them. -/
structure Relocates (drv : MdioDriver) : Prop where
  read_append : ∀ prog reg, drv.read prog reg = prog ++ drv.read [] reg
  write_append : ∀ prog reg val, drv.write prog reg val = prog ++ drv.write [] reg val
  read_length : ∀ reg, (drv.read [] reg).length ≤ 8
  write_length : ∀ reg val, (drv.write [] reg val).length ≤ 8

/-- A fold that appends a fragment in every round. -/
theorem foldl_fragments {ι : Type} {push : MdioProg → ι → MdioProg} (frag : ι → MdioProg)
    (h : ∀ prog i, push prog i = prog ++ frag i) (l : List ι) (prog : MdioProg) :
    l.foldl push prog = prog ++ l.flatMap frag := by
  induction l generalizing prog with
  | nil => simp
  | cons i l ih => rw [List.foldl_cons, ih, h, List.append_assoc, List.flatMap_cons]

/-- A round of a dump appends the program of a read. -/
theorem Relocates.dumpOne_append {drv : MdioDriver} (h : Relocates drv) (prog : MdioProg)
    (reg : BitVec 32) : dumpOne drv prog reg = prog ++ mdioCommonRawProg drv reg none := by
  unfold dumpOne mdioCommonRawProg mdioProgPush
  rw [h.read_append, List.append_assoc]

variable {β ι : Type} [DecidableEq ι]

/-- A driver gives access to the registers of a device: a bus state represents
the contents `ω` of the registers, the read fragment brings the addressed one to
register 0, and the write fragment stores what `store` says of the operand. -/
structure RegAccess (dev : Device β) (drv : MdioDriver) (ι : Type) [DecidableEq ι] where
  valid : BitVec 32 → Prop
  addr : BitVec 32 → ι
  rep : β → (ι → BitVec 16) → Prop
  store : WriteOperand → Regs → BitVec 16
  read_append : ∀ prog reg, drv.read prog reg = prog ++ drv.read [] reg
  write_append : ∀ prog reg val, drv.write prog reg val = prog ++ drv.write [] reg val
  read_length : ∀ reg, (drv.read [] reg).length ≤ 8
  write_length : ∀ reg val, (drv.write [] reg val).length ≤ 8
  read_runs : ∀ {reg d ω}, valid reg → rep d.bus ω → ∃ d', Runs dev (drv.read [] reg) d d' ∧
    Keeps d d' ∧ d'.regs 0 = ω (addr reg) ∧ rep d'.bus ω
  write_runs : ∀ {reg d ω}, valid reg → rep d.bus ω → ∀ o : WriteOperand,
    ∃ d', Runs dev (drv.write [] reg o.word) d d' ∧ Keeps d d' ∧
      rep d'.bus (Function.update ω (addr reg) (store o d.regs))

namespace RegAccess

variable {dev : Device β} {drv : MdioDriver} (acc : RegAccess dev drv ι)
variable {reg : BitVec 32} {d : VmData Words β} {ω : ι → BitVec 16}

include acc in
/-- The drivers do not depend on where they stand. -/
theorem relocates : Relocates drv :=
  ⟨acc.read_append, acc.write_append, acc.read_length, acc.write_length⟩

/-- The driver stores the value of its operand. -/
def Faithful : Prop :=
  ∀ o regs, acc.store o regs = o.value regs

/-! ## Raw operations -/

/-- The new value of a masked write. -/
def maskedValue (old : BitVec 16) (val mask : BitVec 32) : BitVec 16 :=
  (old &&& mask.setWidth 16) ||| val.setWidth 16

/-- A raw read emits the register. -/
theorem raw_read (hvalid : acc.valid reg) (hrep : acc.rep d.bus ω) :
    ∃ d', Runs dev (mdioCommonRawProg drv reg none) d d' ∧
      d'.host = d.host ++ [(ω (acc.addr reg)).setWidth 32] ∧ acc.rep d'.bus ω := by
  obtain ⟨d₁, hread, hkeeps, hreg0, hrep₁⟩ := acc.read_runs hvalid hrep
  refine ⟨_, hread.append (Runs.emit dev d₁ (decodeRi_regArg 0)), ?_, hrep₁⟩
  have hval : (Operand.reg (regIndex 0)).eval d₁.regs = ω (acc.addr reg) := hreg0
  rw [hval, hkeeps.host]

/-- A raw write without a mask stores the value. -/
theorem raw_write (reg : BitVec 32) (hvalid : acc.valid reg) (hrep : acc.rep d.bus ω)
    (val : BitVec 32) :
    ∃ d', Runs dev (mdioCommonRawProg drv reg (some (val, 0))) d d' ∧ d'.host = d.host ∧
      acc.rep d'.bus (Function.update ω (acc.addr reg) (acc.store (.imm val) d.regs)) := by
  obtain ⟨d', hwrite, hkeeps, hrep'⟩ := acc.write_runs hvalid hrep (.imm val)
  exact ⟨d', hwrite, hkeeps.host, hrep'⟩

/-- The program of a masked write. -/
theorem rawProg_masked (hdrv : Relocates drv) (val : BitVec 32) {mask : BitVec 32}
    (hmask : mask ≠ 0) :
    mdioCommonRawProg drv reg (some (val, mask)) =
      drv.read [] reg ++ ([insn .and (regArg 0) (immArg mask) (regArg 0)] ++
        ([insn .or (regArg 0) (immArg val) (regArg 0)] ++ drv.write [] reg (regArg 0))) := by
  simp only [mdioCommonRawProg, if_pos hmask, mdioProgPush]
  rw [hdrv.write_append]
  simp only [List.append_assoc]

/-- A masked write stores what the driver makes of register 0, which holds the
old value under the mask, with the new bits. -/
theorem raw_masked (reg : BitVec 32) (hvalid : acc.valid reg) (hrep : acc.rep d.bus ω)
    (val : BitVec 32)
    {mask : BitVec 32} (hmask : mask ≠ 0) :
    ∃ d' regs, Runs dev (mdioCommonRawProg drv reg (some (val, mask))) d d' ∧
      d'.host = d.host ∧ regs 0 = maskedValue (ω (acc.addr reg)) val mask ∧
      acc.rep d'.bus (Function.update ω (acc.addr reg) (acc.store .raw regs)) := by
  obtain ⟨d₁, hread, hkeeps, hreg0, hrep₁⟩ := acc.read_runs hvalid hrep
  have hand : Runs dev [insn .and (regArg 0) (immArg mask) (regArg 0)] d₁
      (d₁.set 0 (d₁.regs 0 &&& mask.setWidth 16)) :=
    Runs.alu dev d₁ .and (decodeRi_regArg 0) (decodeRi_immArg mask) 0
  let d₂ := d₁.set 0 (d₁.regs 0 &&& mask.setWidth 16)
  have hor : Runs dev [insn .or (regArg 0) (immArg val) (regArg 0)] d₂
      (d₂.set 0 (d₂.regs 0 ||| val.setWidth 16)) :=
    Runs.alu dev d₂ .or (decodeRi_regArg 0) (decodeRi_immArg val) 0
  let d₃ := d₂.set 0 (d₂.regs 0 ||| val.setWidth 16)
  have hrep₃ : acc.rep d₃.bus ω := hrep₁
  obtain ⟨d', hwrite, hkeeps', hrep'⟩ := acc.write_runs hvalid hrep₃ .raw
  refine ⟨d', d₃.regs, ?_, ?_, ?_, hrep'⟩
  · rw [rawProg_masked acc.relocates val hmask]
    exact hread.append (hand.append (hor.append hwrite))
  · exact hkeeps'.host.trans hkeeps.host
  · simp [d₃, d₂, maskedValue, hreg0]

/-! ## Benchmarks -/

/-- The loop body of a benchmark. -/
def benchBody (drv : MdioDriver) (reg : BitVec 32) : MdioProg :=
  drv.read [] reg ++ ([insn .jeq (regArg 0) (regArg 7) (immArg 1), insn .emit (regArg 0) 0 0] ++
    [insn .add (regArg 6) (immArg 1) (regArg 6)])

/-- The loop of a benchmark. -/
def benchLoop (drv : MdioDriver) (reg : BitVec 32) : MdioProg :=
  benchBody drv reg ++
    [insn .jne (regArg 6) (immArg 1000) (gotoArg (benchBody drv reg).length 0)]

/-- What a benchmark does before it starts to count. -/
def benchSetup (drv : MdioDriver) (reg : BitVec 32) : Option (BitVec 32) → MdioProg
  | some val => [insn .add (immArg val) (immArg 0) (regArg 7)] ++ drv.write [] reg (regArg 7)
  | none => drv.read [] reg ++ [insn .add (regArg 0) (immArg 0) (regArg 7)]

/-- The program of a benchmark in parts. -/
theorem benchProg_eq (hdrv : Relocates drv) (val : Option (BitVec 32)) :
    mdioCommonBenchProg drv reg val = benchSetup drv reg val ++
      ([insn .add (immArg 0) (immArg 0) (regArg 6)] ++ benchLoop drv reg) := by
  -- the jump goes back as far wherever the loop starts
  have hloop : ∀ start : MdioProg,
      (let prog := drv.read start reg
       let prog := mdioProgPush prog (insn .jeq (regArg 0) (regArg 7) (immArg 1))
       let prog := mdioProgPush prog (insn .emit (regArg 0) 0 0)
       let prog := mdioProgPush prog (insn .add (regArg 6) (immArg 1) (regArg 6))
       mdioProgPush prog (insn .jne (regArg 6) (immArg 1000) (gotoArg prog.length start.length))) =
      start ++ benchLoop drv reg := by
    intro start
    have hbody : drv.read start reg ++ [insn .jeq (regArg 0) (regArg 7) (immArg 1)] ++
        [insn .emit (regArg 0) 0 0] ++ [insn .add (regArg 6) (immArg 1) (regArg 6)] =
        start ++ benchBody drv reg := by
      rw [hdrv.read_append]
      simp only [benchBody, List.append_assoc, List.cons_append, List.nil_append]
    have hshift := gotoArg_shift start.length (benchBody drv reg).length 0
    rw [Int.add_zero] at hshift
    simp only [mdioProgPush]
    rw [hbody, List.length_append, Int.natCast_add, hshift, List.append_assoc]
    rfl
  cases val with
  | none =>
      rw [← List.append_assoc]
      exact hloop _
  | some val =>
      rw [← List.append_assoc]
      have hset : benchSetup drv reg (some val) =
          drv.write [insn .add (immArg val) (immArg 0) (regArg 7)] reg (regArg 7) :=
        (hdrv.write_append _ _ _).symm
      rw [hset]
      exact hloop _

/-- The words a benchmark emits over `n` reads of a value. -/
def benchWords (value expected : BitVec 16) (n : Nat) : Words :=
  if value = expected then [] else List.replicate n (value.setWidth 32)

/-- One round of the loop: read the register, emit it if it is not the expected
value, and count. -/
theorem benchBody_runs {d₁ : VmData Words β} (hread : Runs dev (drv.read [] reg) d d₁)
    (hkeeps : Keeps d d₁) :
    ∃ d', Runs dev (benchBody drv reg) d d' ∧ d'.bus = d₁.bus ∧
      d'.host = d.host ++ benchWords (d₁.regs 0) (d.regs 7) 1 ∧
      d'.regs 6 = d.regs 6 + 1 ∧ d'.regs 7 = d.regs 7 := by
  have hcount : ∀ d₂ : VmData Words β, Runs dev [insn .add (regArg 6) (immArg 1) (regArg 6)] d₂
      (d₂.set 6 (d₂.regs 6 + 1)) := fun d₂ =>
    Runs.alu dev d₂ .add (decodeRi_regArg 6) (decodeRi_immArg 1) 6
  by_cases hsame : d₁.regs 0 = d.regs 7
  · have hskip : Runs dev [insn .jeq (regArg 0) (regArg 7) (immArg 1),
        insn .emit (regArg 0) 0 0] d₁ d₁ := by
      apply Runs.skip_next true (decodeRi_regArg 0) (decodeRi_regArg 7) (v := .emit (.reg 0))
      · rfl
      · have heq : d₁.regs 0 = d₁.regs 7 := by rw [hkeeps.reg7, hsame]
        exact decide_eq_true heq
    refine ⟨_, hread.append (hskip.append (hcount d₁)), rfl, ?_, ?_, ?_⟩
    · simp [benchWords, hsame, hkeeps.host]
    · simp [hkeeps.reg6]
    · simp [hkeeps.reg7]
  · have hstay : Runs dev [insn .jeq (regArg 0) (regArg 7) (immArg 1)] d₁ d₁ := by
      apply Runs.keep_next true (decodeRi_regArg 0) (decodeRi_regArg 7) (argI_immArg 1)
      have hne : d₁.regs 0 ≠ d₁.regs 7 := by rwa [hkeeps.reg7]
      simpa using hne
    have hemit : Runs dev [insn .emit (regArg 0) 0 0] d₁ _ := Runs.emit dev d₁ (decodeRi_regArg 0)
    refine ⟨_, hread.append ((hstay.append hemit).append (hcount _)), rfl, ?_, ?_, ?_⟩
    · simp [benchWords, hsame, hkeeps.host]
    · simp [hkeeps.reg6]
    · simp [hkeeps.reg7]

/-- One more read of the loop adds its word last. -/
theorem benchWords_succ (value expected : BitVec 16) (n : Nat) :
    benchWords value expected n ++ benchWords value expected 1 =
      benchWords value expected (n + 1) := by
  unfold benchWords
  split_ifs
  · rfl
  · exact List.replicate_append_replicate

/-- The body of a benchmark is in reach of its jump. -/
theorem benchBody_length (hdrv : Relocates drv) : (benchBody drv reg).length < 32768 := by
  have hread := hdrv.read_length reg
  simp only [benchBody, List.length_append, List.length_cons, List.length_nil]
  omega

/-- The codes that register 6 counts through. -/
theorem benchCode_ne : ∀ k, k < 1000 → BitVec.ofNat 16 k ≠ BitVec.ofNat 16 1000 := by
  intro k hk heq
  have hnat := congrArg BitVec.toNat heq
  simp only [BitVec.toNat_ofNat] at hnat
  omega

/-- The counter of the loop counts. -/
theorem benchCode_succ (k : Nat) : BitVec.ofNat 16 k + 1 = BitVec.ofNat 16 (k + 1) := by
  rw [BitVec.ofNat_add]
  rfl

/-- The loop runs until register 6 has counted to 1000. -/
theorem benchLoop_runs (hvalid : acc.valid reg) (hrep : acc.rep d.bus ω) (hcount : d.regs 6 = 0) :
    ∃ d', Runs dev (benchLoop drv reg) d d' ∧ acc.rep d'.bus ω ∧
      d'.host = d.host ++ benchWords (ω (acc.addr reg)) (d.regs 7) 1000 := by
  -- behind `k` rounds the value has been emitted `k` times, if it is another one
  let I (k : Nat) (d₀ : VmData Words β) : Prop := d₀.regs 7 = d.regs 7 ∧ acc.rep d₀.bus ω ∧
    d₀.host = d.host ++ benchWords (ω (acc.addr reg)) (d.regs 7) k
  have hround : ∀ k d₀, k < 1000 → d₀.regs 6 = BitVec.ofNat 16 k → I k d₀ →
      ∃ d₁, Runs dev (benchBody drv reg) d₀ d₁ ∧ d₁.regs 6 = BitVec.ofNat 16 (k + 1) ∧
        I (k + 1) d₁ := by
    rintro k d₀ - hcode ⟨hreg7, hrep₀, hhost₀⟩
    obtain ⟨d₁, hread, hkeeps, hreg0, hrep₁⟩ := acc.read_runs hvalid hrep₀
    obtain ⟨d₂, hbody, hbus, hhost₂, hreg6, hreg7₂⟩ := benchBody_runs hread hkeeps
    refine ⟨d₂, hbody, ?_, hreg7₂.trans hreg7, hbus ▸ hrep₁, ?_⟩
    · rw [hreg6, hcode, benchCode_succ]
    · rw [hhost₂, hhost₀, hreg0, hreg7, List.append_assoc, benchWords_succ]
  have hstart : I 0 d := ⟨rfl, hrep, by simp [benchWords]⟩
  obtain ⟨d', hloop, -, hrep', hhost⟩ := Runs.count_loop 6 1000 (BitVec.ofNat 16) 1000 I
    (benchBody_length acc.relocates) rfl benchCode_ne hround (by decide) hcount hstart
  exact ⟨d', hloop, hrep', hhost⟩

/-- The whole loop, from the start of the count. -/
theorem benchCount_runs (hvalid : acc.valid reg) (hrep : acc.rep d.bus ω) :
    ∃ d', Runs dev ([insn .add (immArg 0) (immArg 0) (regArg 6)] ++ benchLoop drv reg) d d' ∧
      acc.rep d'.bus ω ∧
      d'.host = d.host ++ benchWords (ω (acc.addr reg)) (d.regs 7) 1000 := by
  have hzero : Runs dev [insn .add (immArg 0) (immArg 0) (regArg 6)] d (d.set 6 0) :=
    Runs.alu dev d .add (decodeRi_immArg 0) (decodeRi_immArg 0) 6
  have hrep₁ : acc.rep (d.set 6 0).bus ω := hrep
  obtain ⟨d', hloop, hrep', hhost⟩ := acc.benchLoop_runs hvalid hrep₁ (by simp)
  exact ⟨d', hzero.append hloop, hrep', by simpa using hhost⟩

/-- A benchmark without a value leaves the registers and emits nothing. -/
theorem bench_read (hvalid : acc.valid reg) (hrep : acc.rep d.bus ω) :
    ∃ d', Runs dev (mdioCommonBenchProg drv reg none) d d' ∧ d'.host = d.host ∧
      acc.rep d'.bus ω := by
  obtain ⟨d₁, hread, hkeeps, hreg0, hrep₁⟩ := acc.read_runs hvalid hrep
  have hcopy : Runs dev [insn .add (regArg 0) (immArg 0) (regArg 7)] d₁
      (d₁.set 7 (d₁.regs 0 + 0)) :=
    Runs.alu dev d₁ .add (decodeRi_regArg 0) (decodeRi_immArg 0) 7
  have hrep₂ : acc.rep (d₁.set 7 (d₁.regs 0 + 0)).bus ω := hrep₁
  obtain ⟨d', hloop, hrep', hhost⟩ := acc.benchCount_runs hvalid hrep₂
  refine ⟨d', ?_, ?_, hrep'⟩
  · rw [benchProg_eq acc.relocates]
    exact (hread.append hcopy).append hloop
  · simpa [benchWords, hreg0, hkeeps.host] using hhost

/-- A benchmark with a value stores what the driver makes of register 7, and
emits what it reads back 1000 times if that is another value. -/
theorem bench_write (reg : BitVec 32) (hvalid : acc.valid reg) (hrep : acc.rep d.bus ω)
    (val : BitVec 32) :
    ∃ d' regs, Runs dev (mdioCommonBenchProg drv reg (some val)) d d' ∧
      regs 7 = val.setWidth 16 ∧
      d'.host = d.host ++ benchWords (acc.store .bench regs) (val.setWidth 16) 1000 ∧
      acc.rep d'.bus (Function.update ω (acc.addr reg) (acc.store .bench regs)) := by
  have hset : Runs dev [insn .add (immArg val) (immArg 0) (regArg 7)] d
      (d.set 7 (val.setWidth 16 + 0)) :=
    Runs.alu dev d .add (decodeRi_immArg val) (decodeRi_immArg 0) 7
  let d₁ := d.set 7 (val.setWidth 16 + 0)
  have hrep₁ : acc.rep d₁.bus ω := hrep
  obtain ⟨d₂, hwrite, hkeeps, hrep₂⟩ := acc.write_runs hvalid hrep₁ .bench
  obtain ⟨d', hloop, hrep', hhost⟩ := acc.benchCount_runs hvalid hrep₂
  have hreg7 : d₁.regs 7 = val.setWidth 16 := by simp [d₁]
  refine ⟨d', d₁.regs, ?_, hreg7, ?_, hrep'⟩
  · rw [benchProg_eq acc.relocates]
    exact (hset.append hwrite).append hloop
  · rw [hhost, hkeeps.reg7, hreg7, hkeeps.host, Function.update_self]
    rfl

/-! ## Dumps -/

/-- An unrolled dump emits the registers in order. -/
theorem dump {regs : List (BitVec 32)} (hvalid : ∀ r ∈ regs, acc.valid r)
    (hrep : acc.rep d.bus ω) :
    ∃ d', Runs dev (regs.foldl (dumpOne drv) []) d d' ∧ acc.rep d'.bus ω ∧
      d'.host = d.host ++ regs.map fun r => (ω (acc.addr r)).setWidth 32 := by
  rw [foldl_fragments _ acc.relocates.dumpOne_append, List.nil_append]
  induction regs generalizing d with
  | nil => exact ⟨d, Runs.nil, hrep, by simp⟩
  | cons r rest ih =>
      obtain ⟨d₁, hone, hhost, hrep₁⟩ := acc.raw_read (hvalid r List.mem_cons_self) hrep
      obtain ⟨d', hrest, hrep', hhost'⟩ :=
        ih (fun r hr => hvalid r (List.mem_cons_of_mem _ hr)) hrep₁
      refine ⟨d', hone.append hrest, hrep', ?_⟩
      rw [hhost', hhost, List.append_assoc]
      rfl

/-! ## Whole programs -/

/-- The registers behind a raw operation. -/
def rawRegs (ω : ι → BitVec 16) (a : ι) : Option (BitVec 32 × BitVec 32) → ι → BitVec 16
  | none => ω
  | some (val, mask) =>
      Function.update ω a (if mask = 0 then val.setWidth 16 else maskedValue (ω a) val mask)

/-- The words of a raw operation. -/
def rawWords (ω : ι → BitVec 16) (a : ι) : Option (BitVec 32 × BitVec 32) → Words
  | none => [(ω a).setWidth 32]
  | some _ => []

/-- The registers behind a benchmark. -/
def benchRegs (ω : ι → BitVec 16) (a : ι) : Option (BitVec 32) → ι → BitVec 16
  | none => ω
  | some val => Function.update ω a (val.setWidth 16)

/-- A raw operation takes at most 18 instructions. -/
theorem rawProg_short (hdrv : Relocates drv) (write : Option (BitVec 32 × BitVec 32)) :
    (mdioCommonRawProg drv reg write).length ≤ 18 := by
  have hread := hdrv.read_length reg
  match write with
  | none =>
      simp only [mdioCommonRawProg, mdioProgPush, List.length_append, List.length_singleton]
      omega
  | some (val, mask) =>
      by_cases hmask : mask = 0
      · have hwrite := hdrv.write_length reg (immArg val)
        subst hmask
        exact hwrite.trans (by omega)
      · have hwrite := hdrv.write_length reg (regArg 0)
        rw [rawProg_masked hdrv val hmask]
        simp only [List.length_append, List.length_singleton]
        omega

/-- A raw operation fits in a request. -/
theorem rawProg_length (hdrv : Relocates drv) (write : Option (BitVec 32 × BitVec 32)) :
    (mdioCommonRawProg drv reg write).length ≤ 512 :=
  (rawProg_short hdrv write).trans (by omega)

/-- A benchmark takes at most 22 instructions. -/
theorem benchProg_short (hdrv : Relocates drv) (val : Option (BitVec 32)) :
    (mdioCommonBenchProg drv reg val).length ≤ 22 := by
  have hread := hdrv.read_length reg
  have hwrite := hdrv.write_length reg (regArg 7)
  rw [benchProg_eq hdrv]
  cases val <;>
    · simp only [benchSetup, benchLoop, benchBody, List.length_append, List.length_cons,
        List.length_nil]
      omega

/-- A benchmark fits in a request. -/
theorem benchProg_length (hdrv : Relocates drv) (val : Option (BitVec 32)) :
    (mdioCommonBenchProg drv reg val).length ≤ 512 :=
  (benchProg_short hdrv val).trans (by omega)

/-- Every raw operation of a faithful driver, run by the interpreter. -/
theorem raw_halts (reg : BitVec 32) (hfaithful : acc.Faithful) (hvalid : acc.valid reg) {b : β}
    (hrep : acc.rep b ω) (write : Option (BitVec 32 × BitVec 32)) :
    ∃ b', (mdioNlEval (mdioCommonRawProg drv reg write) dev.bus quietHost).Halts (.entry [] b)
        (.returned .progEnd 0 (rawWords ω (acc.addr reg) write) b') ∧
      acc.rep b' (rawRegs ω (acc.addr reg) write) := by
  let d : VmData Words β := ⟨fun _ => 0, [], b⟩
  have hrep₀ : acc.rep d.bus ω := hrep
  have hruns : ∃ d', Runs dev (mdioCommonRawProg drv reg write) d d' ∧
      d'.host = rawWords ω (acc.addr reg) write ∧
      acc.rep d'.bus (rawRegs ω (acc.addr reg) write) := by
    match write with
    | none =>
        obtain ⟨d', hrun, hhost, hrep'⟩ := acc.raw_read hvalid hrep₀
        exact ⟨d', hrun, hhost, hrep'⟩
    | some (val, mask) =>
        by_cases hmask : mask = 0
        · subst hmask
          obtain ⟨d', hrun, hhost, hrep'⟩ := acc.raw_write reg hvalid hrep₀ val
          rw [hfaithful] at hrep'
          exact ⟨d', hrun, hhost, hrep'⟩
        · obtain ⟨d', regs, hrun, hhost, hreg0, hrep'⟩ := acc.raw_masked reg hvalid hrep₀ val hmask
          have hstore : acc.store .raw regs = maskedValue (ω (acc.addr reg)) val mask := by
            rw [hfaithful]
            exact hreg0
          rw [hstore] at hrep'
          exact ⟨d', hrun, hhost, by simpa only [rawRegs, if_neg hmask] using hrep'⟩
  obtain ⟨d', hrun, hhost, hrep'⟩ := hruns
  have hhalts := hrun.halts (rawProg_length acc.relocates write)
  rw [hhost] at hhalts
  exact ⟨d'.bus, hhalts, hrep'⟩

/-- Every benchmark of a faithful driver, run by the interpreter, reads back
what it expects. -/
theorem bench_halts (reg : BitVec 32) (hfaithful : acc.Faithful) (hvalid : acc.valid reg) {b : β}
    (hrep : acc.rep b ω) (val : Option (BitVec 32)) :
    ∃ b', (mdioNlEval (mdioCommonBenchProg drv reg val) dev.bus quietHost).Halts (.entry [] b)
        (.returned .progEnd 0 [] b') ∧
      acc.rep b' (benchRegs ω (acc.addr reg) val) := by
  let d : VmData Words β := ⟨fun _ => 0, [], b⟩
  have hrep₀ : acc.rep d.bus ω := hrep
  have hruns : ∃ d', Runs dev (mdioCommonBenchProg drv reg val) d d' ∧ d'.host = [] ∧
      acc.rep d'.bus (benchRegs ω (acc.addr reg) val) := by
    cases val with
    | none =>
        obtain ⟨d', hrun, hhost, hrep'⟩ := acc.bench_read hvalid hrep₀
        exact ⟨d', hrun, hhost, hrep'⟩
    | some val =>
        obtain ⟨d', regs, hrun, hreg7, hhost, hrep'⟩ := acc.bench_write reg hvalid hrep₀ val
        have hstore : acc.store .bench regs = val.setWidth 16 := by
          rw [hfaithful]
          exact hreg7
        rw [hstore] at hhost hrep'
        exact ⟨d', hrun, by simpa [benchWords, d] using hhost, hrep'⟩
  obtain ⟨d', hrun, hhost, hrep'⟩ := hruns
  have hhalts := hrun.halts (benchProg_length acc.relocates val)
  rw [hhost] at hhalts
  exact ⟨d'.bus, hhalts, hrep'⟩

/-- A dump within the length limit, run by the interpreter. -/
theorem dump_halts (regs : List (BitVec 32)) (hvalid : ∀ r ∈ regs, acc.valid r) {b : β}
    (hrep : acc.rep b ω) (hlen : (regs.foldl (dumpOne drv) []).length ≤ 512) :
    ∃ b', (mdioNlEval (regs.foldl (dumpOne drv) []) dev.bus quietHost).Halts (.entry [] b)
        (.returned .progEnd 0 (regs.map fun r => (ω (acc.addr r)).setWidth 32) b') ∧
      acc.rep b' ω := by
  let d : VmData Words β := ⟨fun _ => 0, [], b⟩
  have hrep₀ : acc.rep d.bus ω := hrep
  obtain ⟨d', hrun, hrep', hhost⟩ := acc.dump hvalid hrep₀
  have hhalts := hrun.halts hlen
  rw [hhost] at hhalts
  exact ⟨d'.bus, hhalts, hrep'⟩

/-! ## Fragments inside a longer program -/

/-- What the fragments of a driver do at any position of an accepted program:
from the index where the fragment was pushed, with any register contents, to the
index behind it. -/
structure AnyPosition (dev : Device β) (drv : MdioDriver) (rep : β → (ι → BitVec 16) → Prop)
    (reg : BitVec 32) (a : ι) : Prop where
  /-- The read fragment brings the register to register 0. -/
  read : ∀ (pre post : MdioProg) (d : VmData Words β) (ω : ι → BitVec 16), rep d.bus ω →
    (∀ i ∈ pre ++ post, mdioNlValidateInsn i = .ok ()) →
    (drv.read pre reg ++ post).length ≤ 512 →
    ∃ d', (mdioNlEval (drv.read pre reg ++ post) dev.bus quietHost).Reaches (.at pre.length d)
      (.at (drv.read pre reg).length d') ∧ Keeps d d' ∧ d'.regs 0 = ω a ∧ rep d'.bus ω
  /-- The write fragment stores the value that its operand has in front of it. -/
  write : ∀ (pre post : MdioProg) (d : VmData Words β) (ω : ι → BitVec 16) (o : WriteOperand),
    rep d.bus ω → (∀ i ∈ pre ++ post, mdioNlValidateInsn i = .ok ()) →
    (drv.write pre reg o.word ++ post).length ≤ 512 →
    ∃ d', (mdioNlEval (drv.write pre reg o.word ++ post) dev.bus quietHost).Reaches
      (.at pre.length d) (.at (drv.write pre reg o.word).length d') ∧ Keeps d d' ∧
      rep d'.bus (Function.update ω a (o.value d.regs))

/-- The two parts of an accepted program around a fragment decode. -/
theorem decodes_around {pre post : MdioProg}
    (h : ∀ i ∈ pre ++ post, mdioNlValidateInsn i = .ok ()) :
    (∃ vpre, Decodes pre vpre) ∧ ∃ vpost, Decodes post vpost :=
  ⟨exists_decodes_of_valid fun i hi => h i (List.mem_append_left _ hi),
    exists_decodes_of_valid fun i hi => h i (List.mem_append_right _ hi)⟩

/-- The write fragment inside a longer program. -/
theorem write_reaches (reg : BitVec 32) (hvalid : acc.valid reg) (hrep : acc.rep d.bus ω)
    (o : WriteOperand)
    {pre post : MdioProg} (hok : ∀ i ∈ pre ++ post, mdioNlValidateInsn i = .ok ())
    (hlen : (drv.write pre reg o.word ++ post).length ≤ 512) :
    ∃ d', (mdioNlEval (drv.write pre reg o.word ++ post) dev.bus quietHost).Reaches
      (.at pre.length d) (.at (drv.write pre reg o.word).length d') ∧ Keeps d d' ∧
      acc.rep d'.bus (Function.update ω (acc.addr reg) (acc.store o d.regs)) := by
  obtain ⟨⟨vpre, hpre⟩, vpost, hpost⟩ := decodes_around hok
  obtain ⟨d', hrun, hkeeps, hrep'⟩ := acc.write_runs hvalid hrep o
  rw [acc.write_append] at hlen ⊢
  exact ⟨d', hrun.reaches hpre hpost hlen, hkeeps, hrep'⟩

/-- Inside a longer program the fragments do what they do alone. -/
theorem anyPosition (hfaithful : acc.Faithful) (hvalid : acc.valid reg) :
    AnyPosition dev drv acc.rep reg (acc.addr reg) := by
  constructor
  case read =>
    intro pre post d ω hrep hok hlen
    obtain ⟨⟨vpre, hpre⟩, vpost, hpost⟩ := decodes_around hok
    obtain ⟨d', hrun, hkeeps, hreg0, hrep'⟩ := acc.read_runs hvalid hrep
    rw [acc.read_append] at hlen ⊢
    exact ⟨d', hrun.reaches hpre hpost hlen, hkeeps, hreg0, hrep'⟩
  case write =>
    intro pre post d ω o hrep hok hlen
    have hwrite := acc.write_reaches reg hvalid hrep o hok hlen
    rwa [hfaithful] at hwrite

end RegAccess

end MdioTools.Device
