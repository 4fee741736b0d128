import MdioTools.Device.BusAccess

/-!
# What a benchmark reports

A benchmark writes a value or reads one, and then reads the register 1000 times
and emits every value that is another one.  The device is any device here: what
it returns may change from read to read.

Main results:

- Theorem {lit}`mdioCommonBench_reports`: the words of a benchmark are the
  values of the 1000 reads that differ from the expected one, in order.
- Theorem {lit}`exists_benchRun`: every benchmark has such a run, if the
  commands of the switch end.
-/

namespace MdioTools.Device

open Client Kernel

variable {β : Type} {dev : Device β} {drv : KnownDriver} {reg : BitVec 32}

/-- What a benchmark does before the loop, and the value it expects then: the
value given on the command line, written to the register, or the value that the
register has. -/
def BenchSetup (dev : Device β) (drv : KnownDriver) (reg : BitVec 32) :
    Option (BitVec 32) → β → BitVec 16 → β → Prop
  | some val, b, expected, b₁ => expected = val.setWidth 16 ∧
      drv.BusWrite dev reg (drv.stored .bench fun _ => expected) b b₁
  | none, b, expected, b₁ => drv.BusRead dev reg b expected b₁

/-- The words emitted for the values of some reads. -/
def wrongReads (expected : BitVec 16) (vs : List (BitVec 16)) : Words :=
  (vs.filter (· ≠ expected)).map (·.setWidth 32)

theorem wrongReads_cons (expected v : BitVec 16) (vs : List (BitVec 16)) :
    wrongReads expected (v :: vs) = RegAccess.benchWords v expected 1 ++ wrongReads expected vs := by
  unfold wrongReads RegAccess.benchWords
  by_cases hsame : v = expected <;> simp [hsame]

/-- The set-up leaves the expected value in register 7. -/
theorem benchSetup_runs {val : Option (BitVec 32)} {d : VmData Words β} {expected : BitVec 16}
    {b₁ : β} (h : BenchSetup dev drv reg val d.bus expected b₁) :
    ∃ d', Runs dev (RegAccess.benchSetup drv.driver reg val) d d' ∧ d'.host = d.host ∧
      d'.regs 7 = expected ∧ d'.bus = b₁ := by
  cases val with
  | none =>
      obtain ⟨d₁, hread, hkeeps, hreg0, hbus⟩ := KnownDriver.read_runs h
      have hcopy : Runs dev [insn .add (regArg 0) (immArg 0) (regArg 7)] d₁
          (d₁.set 7 (d₁.regs 0 + 0)) :=
        Runs.alu dev d₁ .add (decodeRi_regArg 0) (decodeRi_immArg 0) 7
      exact ⟨_, hread.append hcopy, hkeeps.host, by simp [hreg0], hbus⟩
  | some val =>
      obtain ⟨rfl, hwrite⟩ := h
      let d₁ := d.set 7 (val.setWidth 16 + 0)
      have hset : Runs dev [insn .add (immArg val) (immArg 0) (regArg 7)] d d₁ :=
        Runs.alu dev d .add (decodeRi_immArg val) (decodeRi_immArg 0) 7
      have hreg7 : d₁.regs 7 = val.setWidth 16 := by simp [d₁]
      have hstored : drv.stored .bench d₁.regs = drv.stored .bench fun _ => val.setWidth 16 :=
        drv.stored_congr hreg7
      rw [← hstored] at hwrite
      obtain ⟨d', hrun, hkeeps, hbus⟩ := KnownDriver.write_runs (d := d₁) hwrite
      exact ⟨d', hset.append hrun, hkeeps.host, hkeeps.reg7.trans hreg7, hbus⟩

/-- What holds behind `k` rounds of the loop: the reads still to come start here,
and what they report is still to be emitted. -/
def BenchRound (dev : Device β) (drv : KnownDriver) (reg : BitVec 32) (expected : BitVec 16)
    (words : Words) (b₂ : β) (k : Nat) (d : VmData Words β) : Prop :=
  d.regs 7 = expected ∧ ∃ vs, ReadsEach dev drv d.bus (List.replicate (1000 - k) reg) vs b₂ ∧
    d.host ++ wrongReads expected vs = words

/-- One round takes the first of the reads to come. -/
theorem benchRound_runs {expected : BitVec 16} {words : Words} {b₂ : β} {k : Nat}
    {d : VmData Words β} (hk : k < 1000) (hcode : d.regs 6 = BitVec.ofNat 16 k)
    (h : BenchRound dev drv reg expected words b₂ k d) :
    ∃ d₁, Runs dev (RegAccess.benchBody drv.driver reg) d d₁ ∧
      d₁.regs 6 = BitVec.ofNat 16 (k + 1) ∧ BenchRound dev drv reg expected words b₂ (k + 1) d₁ := by
  obtain ⟨hreg7, vs, hreads, rfl⟩ := h
  rw [show 1000 - k = (1000 - (k + 1)) + 1 by omega, List.replicate_succ] at hreads
  cases hreads with
  | @cons _ b₁ _ _ _ v vs hread hrest =>
      obtain ⟨d₁, hrun, hkeeps, hreg0, hbus⟩ := KnownDriver.read_runs hread
      obtain ⟨d₂, hbody, hbus₂, hhost, hreg6, hreg7₂⟩ := RegAccess.benchBody_runs hrun hkeeps
      refine ⟨d₂, hbody, ?_, hreg7₂.trans hreg7, vs, ?_, ?_⟩
      · rw [hreg6, hcode, RegAccess.benchCode_succ]
      · rwa [hbus₂, hbus]
      · rw [hhost, hreg0, hreg7, List.append_assoc, wrongReads_cons]

/-- The whole benchmark. -/
theorem benchProg_runs {val : Option (BitVec 32)} {b b₁ b₂ : β} {expected : BitVec 16}
    {vs : List (BitVec 16)} (hsetup : BenchSetup dev drv reg val b expected b₁)
    (hreads : ReadsEach dev drv b₁ (List.replicate 1000 reg) vs b₂) :
    ∃ d', Runs dev (mdioCommonBenchProg drv.driver reg val) ⟨fun _ => 0, [], b⟩ d' ∧
      d'.host = wrongReads expected vs ∧ d'.bus = b₂ := by
  have hdrv := drv.relocates
  obtain ⟨d₁, hfirst, hhost, hreg7, hbus⟩ :=
    benchSetup_runs (d := ⟨fun _ => 0, [], b⟩) hsetup
  have hzero : Runs dev [insn .add (immArg 0) (immArg 0) (regArg 6)] d₁ (d₁.set 6 0) :=
    Runs.alu dev d₁ .add (decodeRi_immArg 0) (decodeRi_immArg 0) 6
  have hstart : BenchRound dev drv reg expected (wrongReads expected vs) b₂ 0 (d₁.set 6 0) := by
    refine ⟨hreg7, vs, ?_, ?_⟩
    · rw [VmData.set_bus, hbus]
      exact hreads
    · rw [VmData.set_host, hhost, List.nil_append]
  obtain ⟨d₂, hloop, -, vs', hnone, hwords⟩ := Runs.count_loop 6 1000 (BitVec.ofNat 16) 1000
    (BenchRound dev drv reg expected (wrongReads expected vs) b₂)
    (RegAccess.benchBody_length hdrv) rfl RegAccess.benchCode_ne
    (fun k d hk hcode hround => benchRound_runs hk hcode hround) (by decide) (by simp) hstart
  have hend : d₂.host = wrongReads expected vs ∧ d₂.bus = b₂ := by
    cases hnone
    exact ⟨by simpa [wrongReads] using hwords, rfl⟩
  rw [RegAccess.benchProg_eq hdrv]
  exact ⟨d₂, hfirst.append (hzero.append hloop), hend⟩

/-- For every driver, every register, every device and every sequence of values
that 1000 driver-level reads of the register return behind the set-up, a
benchmark makes these reads and no others, and emits the values that are not the
expected one, in order. -/
theorem mdioCommonBench_reports (dev : Device β) (drv : KnownDriver) (reg : BitVec 32)
    (val : Option (BitVec 32)) {b b₁ b₂ : β} {expected : BitVec 16} {vs : List (BitVec 16)}
    (hsetup : BenchSetup dev drv reg val b expected b₁)
    (hreads : ReadsEach dev drv b₁ (List.replicate 1000 reg) vs b₂) :
    (mdioNlEval (mdioCommonBenchProg drv.driver reg val) dev.bus quietHost).Halts (.entry [] b)
      (.returned .progEnd 0 (wrongReads expected vs) b₂) := by
  obtain ⟨d₂, hruns, hhost, hbus⟩ := benchProg_runs hsetup hreads
  rw [← hhost, ← hbus]
  exact hruns.halts (RegAccess.benchProg_length drv.relocates val)

/-- Every benchmark has a set-up and 1000 reads, if the commands of the switch
end. -/
theorem exists_benchRun (h : drv.Settles dev) (reg : BitVec 32) (val : Option (BitVec 32))
    (b : β) : ∃ expected b₁ vs b₂, BenchSetup dev drv reg val b expected b₁ ∧
      ReadsEach dev drv b₁ (List.replicate 1000 reg) vs b₂ := by
  have hsetup : ∃ expected b₁, BenchSetup dev drv reg val b expected b₁ := by
    cases val with
    | none => exact KnownDriver.exists_busRead h reg b
    | some val =>
        obtain ⟨b₁, hwrite⟩ := KnownDriver.exists_busWrite h reg
          (drv.stored .bench fun _ => val.setWidth 16) b
        exact ⟨_, b₁, rfl, hwrite⟩
  obtain ⟨expected, b₁, hsetup⟩ := hsetup
  obtain ⟨vs, b₂, hreads⟩ := exists_readsEach h (List.replicate 1000 reg) b₁
  exact ⟨expected, b₁, vs, b₂, hsetup, hreads⟩

/-! ## Registers that keep their values -/

section Contract

variable {ι : Type} [DecidableEq ι] {ω : ι → BitVec 16} {b b' : β}

/-- What a driver reads is what its contract says. -/
theorem RegAccess.busRead (acc : RegAccess dev drv.driver ι) (hvalid : acc.valid reg)
    (hrep : acc.rep b ω) {v : BitVec 16} (h : drv.BusRead dev reg b v b') :
    v = ω (acc.addr reg) ∧ acc.rep b' ω := by
  -- both are what a raw read emits and leaves
  have hlen : (mdioCommonRawProg drv.driver reg none).length ≤ 512 :=
    RegAccess.rawProg_length drv.relocates none
  obtain ⟨d₁, hruns₁, hhost₁, hrep₁⟩ :=
    acc.raw_read (d := ⟨fun _ => 0, [], b⟩) hvalid hrep
  obtain ⟨d₂, hruns₂, hkeeps, hreg0, rfl⟩ := KnownDriver.read_runs (d := ⟨fun _ => 0, [], b⟩) h
  have hemit := hruns₂.append (Runs.emit dev d₂ (decodeRi_regArg 0))
  have hsame := (hruns₁.halts hlen).unique (hemit.halts hlen)
  obtain ⟨hwords, hbus⟩ : d₁.host = [(d₂.regs 0).setWidth 32] ∧ d₁.bus = d₂.bus := by
    simpa [hkeeps.host, Operand.eval, regIndex] using hsame
  have hword : (ω (acc.addr reg)).setWidth 32 = (d₂.regs 0).setWidth 32 :=
    List.singleton_inj.mp (hhost₁.symm.trans hwords)
  have hvalue := congrArg (BitVec.setWidth 16) hword
  rw [setWidth_setWidth32, setWidth_setWidth32, hreg0] at hvalue
  exact ⟨hvalue.symm, hbus ▸ hrep₁⟩

/-- What a driver writes is what its contract says. -/
theorem RegAccess.busWrite (acc : RegAccess dev drv.driver ι) (hfaithful : acc.Faithful)
    (hvalid : acc.valid reg) (hrep : acc.rep b ω) {val : BitVec 32}
    (h : drv.BusWrite dev reg (drv.stored (.imm val) fun _ => 0) b b') :
    acc.rep b' (Function.update ω (acc.addr reg) (val.setWidth 16)) := by
  have hlen : (mdioCommonRawProg drv.driver reg (some (val, 0))).length ≤ 512 :=
    RegAccess.rawProg_length drv.relocates (some (val, 0))
  obtain ⟨d₁, hruns₁, -, hrep₁⟩ := acc.raw_write (d := ⟨fun _ => 0, [], b⟩) reg hvalid hrep val
  obtain ⟨d₂, hruns₂, -, rfl⟩ := KnownDriver.write_runs (d := ⟨fun _ => 0, [], b⟩) h
  have hsame := (hruns₁.halts hlen).unique (hruns₂.halts hlen)
  obtain ⟨-, hbus⟩ : d₁.host = d₂.host ∧ d₁.bus = d₂.bus := by simpa using hsame
  rw [hfaithful] at hrep₁
  exact hbus ▸ hrep₁

/-- Reads of one register bring the same value each time. -/
theorem RegAccess.busReads (acc : RegAccess dev drv.driver ι) (hvalid : acc.valid reg)
    (hrep : acc.rep b ω) {n : Nat} {vs : List (BitVec 16)}
    (h : ReadsEach dev drv b (List.replicate n reg) vs b') :
    vs = List.replicate n (ω (acc.addr reg)) ∧ acc.rep b' ω := by
  induction n generalizing b vs with
  | zero =>
      cases h
      exact ⟨rfl, hrep⟩
  | succ n ih =>
      cases h with
      | cons hread hrest =>
          obtain ⟨rfl, hrep₁⟩ := acc.busRead hvalid hrep hread
          obtain ⟨rfl, hrep'⟩ := ih hrep₁ hrest
          exact ⟨rfl, hrep'⟩

/-- The words of a benchmark that reads what it expects. -/
theorem wrongReads_replicate (v : BitVec 16) (n : Nat) :
    wrongReads v (List.replicate n v) = [] := by
  simp [wrongReads]

/-- The accesses of a benchmark that finds what it expects: its set-up, and 1000 reads
of the register that all bring one value. -/
def BenchReads (dev : Device β) (drv : KnownDriver) (reg : BitVec 32) (val : Option (BitVec 32))
    (expected : BitVec 16) (b b' : β) : Prop :=
  ∃ b₁, BenchSetup dev drv reg val b expected b₁ ∧
    ReadsEach dev drv b₁ (List.replicate 1000 reg) (List.replicate 1000 expected) b'

/-- A benchmark of a register that keeps its value expects the value written, or the one
that the register has, reads it 1000 times and emits nothing. -/
theorem RegAccess.bench_reads (drv : KnownDriver) (acc : RegAccess dev drv.driver ι)
    (hfaithful : acc.Faithful) (hstored : ∀ o regs, drv.stored o regs = o.value regs)
    (hsettles : drv.Settles dev) (hvalid : acc.valid reg) (hrep : acc.rep b ω)
    (val : Option (BitVec 32)) :
    ∃ b', (mdioNlEval (mdioCommonBenchProg drv.driver reg val) dev.bus quietHost).Halts
        (.entry [] b) (.returned .progEnd 0 [] b') ∧
      BenchReads dev drv reg val (RegAccess.benchRegs ω (acc.addr reg) val (acc.addr reg)) b b' ∧
      acc.rep b' (RegAccess.benchRegs ω (acc.addr reg) val) := by
  obtain ⟨expected, b₁, vs, b', hsetup, hreads⟩ := exists_benchRun hsettles reg val b
  obtain ⟨rfl, hrep₁⟩ :
      expected = RegAccess.benchRegs ω (acc.addr reg) val (acc.addr reg) ∧
        acc.rep b₁ (RegAccess.benchRegs ω (acc.addr reg) val) := by
    cases val with
    | none => exact acc.busRead hvalid hrep hsetup
    | some val =>
        obtain ⟨rfl, hwrite⟩ := hsetup
        have hsame : drv.stored .bench (fun _ => val.setWidth 16) =
            drv.stored (.imm val) fun _ => 0 := by
          rw [hstored, hstored]
          rfl
        rw [hsame] at hwrite
        exact ⟨by simp [RegAccess.benchRegs], acc.busWrite hfaithful hvalid hrep hwrite⟩
  obtain ⟨rfl, hrep'⟩ := acc.busReads hvalid hrep₁ hreads
  obtain ⟨d', hruns, hhost, rfl⟩ := benchProg_runs hsetup hreads
  have hhalts := hruns.halts (RegAccess.benchProg_length drv.relocates val)
  rw [hhost, wrongReads_replicate] at hhalts
  exact ⟨_, hhalts, ⟨b₁, hsetup, hreads⟩, hrep'⟩

end Contract

/-- What a device returns that counts the reads: 1 at every tenth. -/
def everyTenth (n : Nat) : BitVec 16 :=
  if n % 10 = 0 then 1 else 0

/-- The device. -/
def countingDevice : Device Nat where
  read _ _ n := (everyTenth n, n + 1)
  write _ _ _ n := n

/-- The values of its reads. -/
theorem countingDevice_reads (id : BitVec 16) (reg : BitVec 32) (n k : Nat) :
    ReadsEach countingDevice (.phy id) n (List.replicate k reg)
      ((List.range' n k).map everyTenth) (n + k) := by
  induction k generalizing n with
  | zero => exact .nil n
  | succ k ih =>
      have hrest := ih (n + 1)
      rw [Nat.add_right_comm] at hrest
      exact .cons rfl hrest

/-- Those that are not 0. -/
theorem wrongReads_everyTenth (k : Nat) :
    wrongReads 0 ((List.range' 0 (10 * k)).map everyTenth) = List.replicate k 1 := by
  induction k with
  | zero => rfl
  | succ k ih =>
      have happend : ∀ vs vs' : List (BitVec 16),
          wrongReads 0 (vs ++ vs') = wrongReads 0 vs ++ wrongReads 0 vs' := by
        simp [wrongReads]
      have hten : (List.range' (0 + 10 * k) 10).map everyTenth = (List.range' 0 10).map everyTenth := by
        simp [List.range', everyTenth, Nat.add_mod]
      rw [Nat.mul_succ, ← List.range'_append_1, List.map_append, happend, ih, hten,
        List.replicate_succ']
      rfl

/-- The 1000 reads of a benchmark of this device that expects 0, and what it reports:
every tenth of them. -/
theorem mdioCommonBench_reports_counting :
    ReadsEach countingDevice (.phy 1) 0 (List.replicate 1000 2)
        ((List.range' 0 1000).map everyTenth) 1000 ∧
      (mdioNlEval (mdioCommonBenchProg (phyDriver 1) 2 (some 0)) countingDevice.bus
        quietHost).Halts (.entry [] 0) (.returned .progEnd 0 (List.replicate 100 1) 1000) := by
  have hreads := countingDevice_reads 1 2 0 1000
  have hwords : wrongReads 0 ((List.range' 0 1000).map everyTenth) = List.replicate 100 1 :=
    wrongReads_everyTenth 100
  rw [← hwords]
  exact ⟨hreads, mdioCommonBench_reports countingDevice (.phy 1) 2 (some 0) ⟨rfl, rfl⟩ hreads⟩

end MdioTools.Device
