import MdioTools.Client.Counter
import MdioTools.Device.SwitchCore

/-!
# Reading the counters of a switch

The statistics unit of a switch captures the counters of a port, and reads the
captured counters one by one into two registers.  Both are operations that the
unit starts when its operation register is written with the busy bit, and that
take some time.  The program of the `counter` command captures port after port:
register 1 holds the word that captures the next one, and the loop ends behind
the word for the last one.

Main results:

- Definition {lit}`statsCore`: the unit, with a log of the captures.
- Theorem {lit}`counterRound_runs`: one round of the loop.
- Theorem {lit}`mvlsCounterProg_reports`: the program captures all ports, and
  emits the words that the callback expects; and what the callback prints adds
  up to the counters.
-/

namespace MdioTools.Device

open Client Kernel Library

/-! ## The unit -/

/-- The register numbers of the driver: the operation and both halves of a
counter. -/
def statsOpReg : BitVec 32 := mvlsReg mvlsG1 0x1d

def statsHighReg : BitVec 32 := mvlsReg mvlsG1 0x1e

def statsLowReg : BitVec 32 := mvlsReg mvlsG1 0x1f

/-- The registers that they stand for. -/
def statsOp : BitVec 5 × BitVec 5 := (0x1b, 0x1d)

def statsHigh : BitVec 5 × BitVec 5 := (0x1b, 0x1e)

def statsLow : BitVec 5 × BitVec 5 := (0x1b, 0x1f)

/-- The registers of a switch; the reads of the operation register that will
still find it busy, and these numbers for the operations to come; what the
counters of the ports are at the captures to come; the captured counters, the
counter that was read, and what reads as the counter while the unit is busy; and
the ports that have been captured. -/
structure StatsSwitch where
  regs : SwitchRegs
  busy : Nat
  times : Nat → Nat
  live : Nat → BitVec 12 → BitVec 12 → BitVec 32
  snapshot : BitVec 12 → BitVec 32
  counter : BitVec 32
  junk : BitVec 16
  captures : List (BitVec 12)

namespace StatsSwitch

/-- A read. -/
def get (a : BitVec 5 × BitVec 5) (s : StatsSwitch) : BitVec 16 × StatsSwitch :=
  if a = statsOp then
    match s.busy with
    | 0 => (s.regs a &&& 0x7fff, s)
    | n + 1 => (s.regs a ||| 0x8000, { s with busy := n })
  else if a = statsHigh then
    (if s.busy = 0 then (s.counter >>> 16).setWidth 16 else s.junk, s)
  else if a = statsLow then (if s.busy = 0 then s.counter.setWidth 16 else s.junk, s)
  else (s.regs a, s)

/-- The operation of a word: 5 captures the counters of a port, 4 reads one of
the captured counters. -/
def start (s : StatsSwitch) (val : BitVec 16) : StatsSwitch :=
  let s := { s with busy := s.times 0, times := fun k => s.times (k + 1) }
  if val.extractLsb' 12 3 = 5 then
    { s with
      snapshot := s.live 0 (val.setWidth 12)
      live := fun k => s.live (k + 1)
      captures := s.captures ++ [val.setWidth 12] }
  else if val.extractLsb' 12 3 = 4 then { s with counter := s.snapshot (val.setWidth 12) }
  else s

/-- A write.  The busy bit starts an operation; while one runs, the operation
register cannot be written. -/
def put (a : BitVec 5 × BitVec 5) (val : BitVec 16) (s : StatsSwitch) : StatsSwitch :=
  if a = statsOp ∧ s.busy ≠ 0 then s
  else
    let s := { s with regs := Function.update s.regs a val }
    if a = statsOp ∧ val.getLsbD 15 then s.start val else s

/-- The unit behind its operation. -/
def idle (s : StatsSwitch) : StatsSwitch :=
  { s with busy := 0 }

end StatsSwitch

def statsCore : SwitchCore StatsSwitch where
  get := StatsSwitch.get
  put := StatsSwitch.put

/-- The operation register is one of a global port. -/
theorem switchReg_statsOp : SwitchReg statsOpReg :=
  ⟨mvlsG1, 0x1d, by decide, by decide, rfl⟩

/-- The register of the upper half is one of a global port. -/
theorem switchReg_statsHigh : SwitchReg statsHighReg :=
  ⟨mvlsG1, 0x1e, by decide, by decide, rfl⟩

/-- The register of the lower half is one of a global port. -/
theorem switchReg_statsLow : SwitchReg statsLowReg :=
  ⟨mvlsG1, 0x1f, by decide, by decide, rfl⟩

/-- Waiting for the unit ends when its operation does. -/
theorem statsCore_polls (s : StatsSwitch) : statsCore.Polls statsOp s s.idle := by
  apply SwitchCore.polls_countdown StatsSwitch.busy StatsSwitch.idle
  · rintro ⟨regs, busy, times, live, snapshot, counter, junk, captures⟩ rfl
    exact ⟨regs statsOp &&& 0x7fff, rfl, by simp⟩
  · rintro ⟨regs, busy, times, live, snapshot, counter, junk, captures⟩ n rfl
    exact ⟨regs statsOp ||| 0x8000, ⟨regs, n, times, live, snapshot, counter, junk, captures⟩, rfl,
      by simp, rfl, rfl⟩

/-- An idle unit returns the counter that was read. -/
theorem statsCore_high {s : StatsSwitch} (hidle : s.busy = 0) :
    statsCore.get statsHigh s = ((s.counter >>> 16).setWidth 16, s) := by
  simp [statsCore, StatsSwitch.get, show statsHigh ≠ statsOp by decide, hidle]

/-- An idle unit reads the lower half of its counter. -/
theorem statsCore_low {s : StatsSwitch} (hidle : s.busy = 0) :
    statsCore.get statsLow s = (s.counter.setWidth 16, s) := by
  simp [statsCore, StatsSwitch.get, show statsLow ≠ statsOp by decide,
    show statsLow ≠ statsHigh by decide, hidle]

/-- An idle unit starts an operation. -/
theorem statsCore_start {s : StatsSwitch} (hidle : s.busy = 0) {val : BitVec 16}
    (hbusy : val.getLsbD 15 = true) : statsCore.put statsOp val s =
      { s with regs := Function.update s.regs statsOp val }.start val := by
  simp [statsCore, StatsSwitch.put, hidle, hbusy]

/-- What the reads of counters keep of an idle unit. -/
structure StatsSwitch.Kept (s s' : StatsSwitch) : Prop where
  busy : s'.busy = 0
  live : s'.live = s.live
  snapshot : s'.snapshot = s.snapshot
  captures : s'.captures = s.captures

/-! ## The program -/

/-- The counters that are read, in this order. -/
def counterNums : List (BitVec 8) :=
  [0x04, 0x06, 0x07, 0x10, 0x13, 0x12]

/-- The word that reads a captured counter. -/
def counterReadWord (counter : BitVec 8) : BitVec 32 :=
  1 <<< 15 ||| 4 <<< 12 ||| counter.setWidth 32

/-- The fragment that reads a counter. -/
def counterRead (id : BitVec 16) (counter : BitVec 8) : MdioProg :=
  mvlsWrite id [] statsOpReg (immArg (counterReadWord counter)) ++
    (mvlsWait id [] statsOpReg ++
      ((mvlsRead id [] statsHighReg ++ [insn .emit (regArg 0) 0 0]) ++
        (mvlsRead id [] statsLowReg ++ [insn .emit (regArg 0) 0 0])))

/-- `mvls_counter_read_one` appends its instructions. -/
theorem mvlsCounterReadOne_append (id : BitVec 16) (prog : MdioProg) (counter : BitVec 8) :
    mvlsCounterReadOne id prog counter = prog ++ counterRead id counter := by
  unfold mvlsCounterReadOne pushEmit mdioProgPush
  simp only
  rw [mvlsRead_append id (_ ++ _), mvlsRead_append id (mvlsWait _ _ _),
    mvlsWait_append id (mvlsWrite _ _ _ _), mvlsWrite_append]
  simp only [counterRead, List.append_assoc]
  rfl

/-- The body of the loop over the ports. -/
def counterBody (id : BitVec 16) (shift : BitVec 32) : MdioProg :=
  mvlsWrite id [] statsOpReg (regArg 1) ++ (mvlsWait id [] statsOpReg ++
    (counterNums.flatMap (counterRead id) ++ [insn .add (regArg 1) (immArg shift) (regArg 1)]))

/-- The word that captures a port. -/
def counterCode (fam : MvlsFamliy) (k : Nat) : BitVec 32 :=
  1 <<< 15 ||| 5 <<< 12 ||| ((mvlsCounterBase fam).1 + (mvlsCounterBase fam).2 * BitVec.ofNat 32 k)

theorem mvlsCounterProg_eq (id : BitVec 16) (fam : MvlsFamliy) :
    mvlsCounterProg id fam = mvlsWait id [] statsOpReg ++
      ([insn .add (immArg (counterCode fam 0)) (immArg 0) (regArg 1)] ++
        (counterBody id (mvlsCounterBase fam).2 ++
          [insn .jne (regArg 1) (immArg (counterCode fam 11))
            (gotoArg (counterBody id (mvlsCounterBase fam).2).length 0)])) := by
  have hbase : counterCode fam 0 = 1 <<< 15 ||| 5 <<< 12 ||| (mvlsCounterBase fam).1 := by
    cases fam <;> rfl
  have hshift := fun n : Nat =>
    gotoArg_shift n (counterBody id (mvlsCounterBase fam).2).length 0
  simp only [Int.add_zero, ← Int.natCast_add] at hshift
  rw [hbase, ← hshift ((mvlsWait id [] statsOpReg).length + 1)]
  unfold mvlsCounterProg mdioProgPush
  simp only
  rw [foldl_fragments _ (mvlsCounterReadOne_append id), mvlsWait_append id (mvlsWrite _ _ _ _),
    mvlsWrite_append]
  simp only [List.append_assoc, counterBody, List.length_append, List.length_singleton,
    Nat.add_assoc]
  rfl

/-! ## Words -/

/-- The fields of the word that reads a counter. -/
theorem counterReadWord_fields (counter : BitVec 8) :
    ((counterReadWord counter).setWidth 16 : BitVec 16).getLsbD 15 = true ∧
      ((counterReadWord counter).setWidth 16 : BitVec 16).extractLsb' 12 3 = 4 ∧
      ((counterReadWord counter).setWidth 16 : BitVec 16).setWidth 12 = counter.setWidth 12 := by
  revert counter
  decide +kernel

/-- The number of a port in the operations of a switch family. -/
def portCode : MvlsFamliy → Nat → BitVec 12
  | .agate, p | .peridot, p | .amethyst, p => BitVec.ofNat 12 (p + 1) <<< 5
  | _, p => BitVec.ofNat 12 p

/-- The word that captures a port: the busy bit, the operation and the port. -/
theorem counterCode_fields (fam : MvlsFamliy) {k : Nat} (hk : k < 11) :
    ((counterCode fam k).setWidth 16 : BitVec 16).getLsbD 15 = true ∧
      ((counterCode fam k).setWidth 16 : BitVec 16).extractLsb' 12 3 = 5 ∧
      ((counterCode fam k).setWidth 16 : BitVec 16).setWidth 12 = portCode fam k := by
  have hall : ∀ k : Fin 11, ((counterCode fam k).setWidth 16 : BitVec 16).getLsbD 15 = true ∧
      ((counterCode fam k).setWidth 16 : BitVec 16).extractLsb' 12 3 = 5 ∧
      ((counterCode fam k).setWidth 16 : BitVec 16).setWidth 12 = portCode fam k := by
    cases fam <;> decide
  exact hall ⟨k, hk⟩

/-- The loop goes from port to port, and ends behind the last one. -/
theorem counterCode_next (fam : MvlsFamliy) {k : Nat} (hk : k < 11) :
    ((counterCode fam k).setWidth 16 + (mvlsCounterBase fam).2.setWidth 16 : BitVec 16) =
        (counterCode fam (k + 1)).setWidth 16 ∧
      ((counterCode fam k).setWidth 16 : BitVec 16) ≠ (counterCode fam 11).setWidth 16 := by
  have hall : ∀ k : Fin 11,
      ((counterCode fam k).setWidth 16 + (mvlsCounterBase fam).2.setWidth 16 : BitVec 16) =
        (counterCode fam (k + 1)).setWidth 16 ∧
      ((counterCode fam k).setWidth 16 : BitVec 16) ≠ (counterCode fam 11).setWidth 16 := by
    cases fam <;> decide
  exact hall ⟨k, hk⟩

/-- The words of a counter: its high and its low half. -/
def counterWords (v : BitVec 32) : Words :=
  [((v >>> 16).setWidth 16 : BitVec 16).setWidth 32, (v.setWidth 16 : BitVec 16).setWidth 32]

/-- The words of the counters of a port. -/
def portWords (snapshot : BitVec 12 → BitVec 32) : Words :=
  counterNums.flatMap fun counter => counterWords (snapshot (counter.setWidth 12))

/-! ## Operations -/

/-- An idle unit behind a capture. -/
structure StatsSwitch.Captured (s s' : StatsSwitch) (port : BitVec 12) : Prop where
  busy : s'.busy = 0
  live : s'.live = fun k => s.live (k + 1)
  snapshot : s'.snapshot = s.live 0 port
  captures : s'.captures = s.captures ++ [port]

/-- A capture takes the counters of its port. -/
theorem StatsSwitch.start_capture (s : StatsSwitch) {val : BitVec 16}
    (hop : val.extractLsb' 12 3 = 5) : s.Captured (s.start val).idle (val.setWidth 12) := by
  rw [start, if_pos hop]
  exact ⟨rfl, rfl, rfl, rfl⟩

/-- A read shows a counter of the last capture. -/
theorem StatsSwitch.start_read (s : StatsSwitch) {val : BitVec 16}
    (hop : val.extractLsb' 12 3 = 4) :
    s.Kept (s.start val).idle ∧ (s.start val).idle.counter = s.snapshot (val.setWidth 12) := by
  have hop5 : ¬val.extractLsb' 12 3 = 5 := by
    rw [hop]
    decide
  rw [start, if_neg hop5, if_pos hop]
  exact ⟨⟨rfl, rfl, rfl, rfl⟩, rfl⟩

variable (adr : Addressing) {s : StatsSwitch} {d : VmData Words (adr.State StatsSwitch)}

/-- Write a word that starts an operation, and wait for its end. -/
theorem statsOperation_runs (hrep : adr.Represents d.bus s) (hidle : s.busy = 0)
    {a : BitVec 32} {A : Operand} (ha : decodeRi (a.setWidth 18) = some A) {val : BitVec 16}
    (hval : A.eval d.regs = val) (hbusy : val.getLsbD 15 = true) :
    ∃ d', Runs (adr.device statsCore)
        (mvlsWrite adr.id [] statsOpReg a ++ mvlsWait adr.id [] statsOpReg) d d' ∧
      Scratch d d' ∧ adr.Represents d'.bus
        (StatsSwitch.start { s with regs := Function.update s.regs statsOp val } val).idle := by
  subst hval
  obtain ⟨d₁, hwrite, hscratch, hrep₁⟩ := adr.write_runs statsCore switchReg_statsOp ha hrep
  rw [show switchAddr statsOpReg = statsOp from rfl, statsCore_start hidle hbusy] at hrep₁
  obtain ⟨d', hwait, hscratch', hrep'⟩ :=
    adr.wait_runs statsCore switchReg_statsOp (statsCore_polls _) hrep₁
  exact ⟨d', hwrite.append hwait, hscratch.trans hscratch', hrep'⟩

/-- One of the captured counters. -/
theorem counterRead_runs (counter : BitVec 8) (hrep : adr.Represents d.bus s)
    (hidle : s.busy = 0) :
    ∃ d' s', Runs (adr.device statsCore) (counterRead adr.id counter) d d' ∧
      (∀ r, r ≠ 0 → d'.regs r = d.regs r) ∧
      d'.host = d.host ++ counterWords (s.snapshot (counter.setWidth 12)) ∧
      adr.Represents d'.bus s' ∧ s.Kept s' := by
  obtain ⟨hbusy, hop, hcounter⟩ := counterReadWord_fields counter
  have hval : (Operand.imm ((counterReadWord counter).setWidth 16)).eval d.regs =
      (counterReadWord counter).setWidth 16 := rfl
  obtain ⟨d₁, hread, hscratch, hrep₁⟩ :=
    statsOperation_runs adr hrep hidle (decodeRi_immArg (counterReadWord counter)) hval hbusy
  obtain ⟨hkept, hvalue⟩ := StatsSwitch.start_read
    { s with regs := Function.update s.regs statsOp ((counterReadWord counter).setWidth 16) } hop
  generalize StatsSwitch.idle _ = s₁ at hrep₁ hkept hvalue
  obtain ⟨d₂, hemit, hregs₂, hhost₂, hrep₂⟩ := adr.emit_runs statsCore switchReg_statsHigh hrep₁
  rw [show switchAddr statsHighReg = statsHigh from rfl, statsCore_high hkept.busy] at hhost₂ hrep₂
  obtain ⟨d', hemit', hregs', hhost', hrep'⟩ := adr.emit_runs statsCore switchReg_statsLow hrep₂
  rw [show switchAddr statsLowReg = statsLow from rfl, statsCore_low hkept.busy] at hhost' hrep'
  refine ⟨d', s₁, ?_, fun r hr => ?_, ?_, hrep', hkept.busy, hkept.live, hkept.snapshot,
    hkept.captures⟩
  · have hall := hread.append (hemit.append hemit')
    rwa [List.append_assoc] at hall
  · exact (hregs' r hr).trans ((hregs₂ r hr).trans (hscratch.regs r hr))
  · rw [hhost', hhost₂, hscratch.host, hvalue, hcounter, List.append_assoc]
    rfl

/-- The counters of a list, one after another. -/
theorem counterReads_runs (counters : List (BitVec 8)) {s : StatsSwitch}
    {d : VmData Words (adr.State StatsSwitch)} (hrep : adr.Represents d.bus s)
    (hidle : s.busy = 0) :
    ∃ d' s', Runs (adr.device statsCore) (counters.flatMap (counterRead adr.id)) d d' ∧
      (∀ r, r ≠ 0 → d'.regs r = d.regs r) ∧
      d'.host = d.host ++
        counters.flatMap (fun counter => counterWords (s.snapshot (counter.setWidth 12))) ∧
      adr.Represents d'.bus s' ∧ s.Kept s' := by
  induction counters generalizing d s with
  | nil => exact ⟨d, s, Runs.nil, fun _ _ => rfl, by simp, hrep, hidle, rfl, rfl, rfl⟩
  | cons counter counters ih =>
      obtain ⟨d₁, s₁, hone, hregs₁, hhost₁, hrep₁, hkept₁⟩ :=
        counterRead_runs adr counter hrep hidle
      obtain ⟨d', s', hrest, hregs', hhost', hrep', hkept'⟩ := ih hrep₁ hkept₁.busy
      refine ⟨d', s', hone.append hrest, fun r hr => (hregs' r hr).trans (hregs₁ r hr), ?_, hrep',
        hkept'.busy, hkept'.live.trans hkept₁.live, hkept'.snapshot.trans hkept₁.snapshot,
        hkept'.captures.trans hkept₁.captures⟩
      rw [hhost', hhost₁, hkept₁.snapshot, List.append_assoc, List.flatMap_cons]

/-! ## The loop over the ports -/

/-- The words of the first ports of a report. -/
def portsWords (fam : MvlsFamliy) (s : StatsSwitch) (k : Nat) : Words :=
  (List.range k).flatMap fun p => portWords (s.live p (portCode fam p))

/-- What holds behind `k` rounds of the loop: the unit is idle, the first ports
have been captured, and their words have been emitted. -/
def CounterRound (fam : MvlsFamliy) (s : StatsSwitch) (k : Nat)
    (d : VmData Words (adr.State StatsSwitch)) : Prop :=
  ∃ t, adr.Represents d.bus t ∧ t.busy = 0 ∧
    t.captures = s.captures ++ (List.range k).map (portCode fam) ∧
    t.live = (fun j => s.live (k + j)) ∧ d.host = portsWords fam s k

/-- One round captures the next port and emits its words. -/
theorem counterRound_runs {fam : MvlsFamliy} {k : Nat} (hk : k < 11)
    (hcode : d.regs 1 = (counterCode fam k).setWidth 16) (h : CounterRound adr fam s k d) :
    ∃ d₁, Runs (adr.device statsCore) (counterBody adr.id (mvlsCounterBase fam).2) d d₁ ∧
      d₁.regs 1 = (counterCode fam (k + 1)).setWidth 16 ∧ CounterRound adr fam s (k + 1) d₁ := by
  obtain ⟨t, hrep, hidle, hcaptures, hlive, hhost⟩ := h
  obtain ⟨hbusy, hop, hport⟩ := counterCode_fields fam hk
  obtain ⟨d₁, hcapture, hscratch, hrep₁⟩ :=
    statsOperation_runs adr hrep hidle (decodeRi_regArg 1) hcode hbusy
  have hcaptured := StatsSwitch.start_capture
    { t with regs := Function.update t.regs statsOp ((counterCode fam k).setWidth 16) } hop
  rw [hport] at hcaptured
  generalize StatsSwitch.idle _ = t₁ at hrep₁ hcaptured
  obtain ⟨d₂, t₂, hreads, hregs₂, hhost₂, hrep₂, hkept⟩ :=
    counterReads_runs adr counterNums hrep₁ hcaptured.busy
  have hadd : Runs (adr.device statsCore)
      [insn .add (regArg 1) (immArg (mvlsCounterBase fam).2) (regArg 1)] d₂
      (d₂.set 1 (d₂.regs 1 + (mvlsCounterBase fam).2.setWidth 16)) :=
    Runs.alu _ d₂ .add (decodeRi_regArg 1) (decodeRi_immArg _) 1
  have hreg1 : d₂.regs 1 = (counterCode fam k).setWidth 16 := by
    rw [hregs₂ 1 (by decide), hscratch.regs 1 (by decide), hcode]
  refine ⟨d₂.set 1 (d₂.regs 1 + (mvlsCounterBase fam).2.setWidth 16), ?_, ?_, t₂, hrep₂,
    hkept.busy, ?_, ?_, ?_⟩
  · have hall := hcapture.append (hreads.append hadd)
    rwa [List.append_assoc] at hall
  · rw [VmData.set_regs_self, hreg1, (counterCode_next fam hk).1]
  · rw [hkept.captures, hcaptured.captures]
    simp only [hcaptures, List.range_succ, List.map_append, List.map_singleton, List.append_assoc]
  · rw [hkept.live, hcaptured.live]
    simp only [hlive]
    exact funext fun j => congrArg s.live (by omega)
  · rw [VmData.set_host, hhost₂, hscratch.host, hhost, hcaptured.snapshot, portsWords, portsWords,
      List.range_succ, List.flatMap_append, List.flatMap_singleton]
    simp only [hlive, Nat.add_zero]
    rfl

/-- Reading one counter takes at most 36 instructions. -/
theorem counterRead_length (id : BitVec 16) (counter : BitVec 8) :
    (counterRead id counter).length ≤ 36 := by
  have hwrite := mvlsWrite_length id statsOpReg (immArg (counterReadWord counter))
  have hwait := mvlsWait_length id statsOpReg
  have hhigh := mvlsRead_length id statsHighReg
  have hlow := mvlsRead_length id statsLowReg
  simp only [counterRead, List.length_append, List.length_singleton]
  omega

/-- Reading several counters takes as many times 36. -/
theorem counterReads_length (id : BitVec 16) (counters : List (BitVec 8)) :
    (counters.flatMap (counterRead id)).length ≤ counters.length * 36 := by
  induction counters with
  | nil => exact Nat.zero_le _
  | cons counter counters ih =>
      have hone := counterRead_length id counter
      rw [List.flatMap_cons, List.length_append, List.length_cons]
      omega

/-- The body of the loop has at most 235 instructions. -/
theorem counterBody_length (id : BitVec 16) (shift : BitVec 32) :
    (counterBody id shift).length ≤ 235 := by
  have hwrite := mvlsWrite_length id statsOpReg (regArg 1)
  have hwait := mvlsWait_length id statsOpReg
  have hreads : (counterNums.flatMap (counterRead id)).length ≤ 6 * 36 :=
    counterReads_length id counterNums
  simp only [counterBody, List.length_append, List.length_singleton]
  omega

/-- What the program of the `counter` command does. -/
theorem mvlsCounterProg_runs (fam : MvlsFamliy) (hrep : adr.Represents d.bus s)
    (hhost : d.host = []) :
    ∃ d', Runs (adr.device statsCore) (mvlsCounterProg adr.id fam) d d' ∧
      CounterRound adr fam s 11 d' := by
  obtain ⟨d₁, hwait, hscratch, hrep₁⟩ :=
    adr.wait_runs statsCore switchReg_statsOp (statsCore_polls s) hrep
  have hset : Runs (adr.device statsCore)
      [insn .add (immArg (counterCode fam 0)) (immArg 0) (regArg 1)] d₁
      (d₁.set 1 ((counterCode fam 0).setWidth 16 + (0 : BitVec 32).setWidth 16)) :=
    Runs.alu _ d₁ .add (decodeRi_immArg (counterCode fam 0)) (decodeRi_immArg 0) 1
  have hstart : CounterRound adr fam s 0
      (d₁.set 1 ((counterCode fam 0).setWidth 16 + (0 : BitVec 32).setWidth 16)) := by
    refine ⟨s.idle, hrep₁, rfl, by simp [StatsSwitch.idle], by simp [StatsSwitch.idle], ?_⟩
    rw [VmData.set_host, hscratch.host, hhost]
    rfl
  have hlen := counterBody_length adr.id (mvlsCounterBase fam).2
  obtain ⟨d', hloop, hend⟩ := Runs.count_loop 1 (counterCode fam 11)
    (fun k => (counterCode fam k).setWidth 16) 11 (CounterRound adr fam s) (by omega) rfl
    (fun k hk => (counterCode_next fam hk).2)
    (fun k d hk hcode hround => counterRound_runs adr hk hcode hround) (by decide) (by simp) hstart
  refine ⟨d', ?_, hend⟩
  rw [mvlsCounterProg_eq]
  exact hwait.append (hset.append hloop)

/-- The program fits in a request. -/
theorem mvlsCounterProg_length (id : BitVec 16) (fam : MvlsFamliy) :
    (mvlsCounterProg id fam).length ≤ 512 := by
  have hwait := mvlsWait_length id statsOpReg
  have hbody := counterBody_length id (mvlsCounterBase fam).2
  simp only [mvlsCounterProg_eq, List.length_append, List.length_singleton]
  omega

/-! ## Reports -/

/-- The number of a counter of a report. -/
def counterNum (n : Fin 6) : BitVec 12 :=
  (counterNums.get n).setWidth 12

/-- Six counters of two words each. -/
theorem portWords_length (snapshot : BitVec 12 → BitVec 32) : (portWords snapshot).length = 12 :=
  rfl

/-- The words of a counter of a port. -/
theorem portWords_counter (snapshot : BitVec 12 → BitVec 32) (n : Fin 6) :
    (portWords snapshot)[2 * n.val]? =
        some (((snapshot (counterNum n) >>> 16).setWidth 16 : BitVec 16).setWidth 32) ∧
      (portWords snapshot)[2 * n.val + 1]? =
        some (((snapshot (counterNum n)).setWidth 16 : BitVec 16).setWidth 32) := by
  match n with
  | 0 | 1 | 2 | 3 | 4 | 5 => exact ⟨rfl, rfl⟩

/-- A port has twelve words. -/
theorem portsWords_length (fam : MvlsFamliy) (s : StatsSwitch) (k : Nat) :
    (portsWords fam s k).length = k * 12 := by
  simp [portsWords, List.length_flatMap, portWords_length]

/-- The callback finds the counters of the ports in the words. -/
theorem counterNow_portsWords (fam : MvlsFamliy) (s : StatsSwitch) (i : Fin 11) (n : Fin 6) :
    counterNow (portsWords fam s 11) i n = s.live i (portCode fam i) (counterNum n) := by
  have hlen : ∀ p, (portWords (s.live p (portCode fam p))).length = 12 := fun p => rfl
  have hn := n.isLt
  obtain ⟨hhigh, hlow⟩ := portWords_counter (s.live i (portCode fam i)) n
  rw [counterNow, List.getD_eq_getElem?_getD, List.getD_eq_getElem?_getD, Nat.add_assoc, portsWords,
    getElem?_blocks hlen i.isLt (by omega), getElem?_blocks hlen i.isLt (by omega), hhigh, hlow]
  exact counter_halves _

/-- For every switch family, both addressings, every state of the switch, all
counters that it has at its captures and every time that the commands and the
operations take, the run of the program captures the ports 0 to 10 in order, and
emits the high and the low word of the six counters of each, which is where the
callback looks for them.  Each report shows one line for each port some of whose
counters have changed, with the differences in its columns.  And over any reports,
one after another, the differences that the callback prints for a counter add up to
its last value in the width of a counter. -/
theorem mvlsCounterProg_reports (adr : Addressing) (fam : MvlsFamliy)
    {b : adr.State StatsSwitch} {s : StatsSwitch} (hrep : adr.Represents b s) :
    (∃ words b' s',
      (mdioNlEval (mvlsCounterProg adr.id fam) (adr.device statsCore).bus quietHost).Halts
        (.entry [] b) (.returned .progEnd 0 words b') ∧ adr.Represents b' s' ∧
      s'.captures = s.captures ++ (List.range 11).map (portCode fam) ∧
      words = (List.range 11).flatMap (fun p => counterNums.flatMap fun counter =>
        counterWords (s.live p (portCode fam p) (counter.setWidth 12))) ∧
      words.length = 132 ∧
      ∀ i n, counterNow words i n = s.live i (portCode fam i) (counterNum n)) ∧
    (∀ (data : Words) (err : Int) (prev : MvlsCounterCtx), data.length = 132 →
      (mvlsCounterCb data err prev).Shown ∧ (mvlsCounterCb data err prev).err = err ∧
      (mvlsCounterCb data err prev).lines = changedLines data prev (List.finRange 11)) ∧
    ∀ reports : List Words, (∀ data ∈ reports, data.length = 132) → ∀ i n,
      printedTotal (counterReports (fun _ _ => 0) reports) i n % 2 ^ 32 =
        (lastCounters (fun _ _ => 0) reports i n).toNat := by
  refine ⟨?_, fun data err prev hlen => ?_, ?_⟩
  · obtain ⟨d', hruns, s', hrep', -, hcaptures, -, hhost⟩ :=
      mvlsCounterProg_runs adr fam (d := ⟨fun _ => 0, [], b⟩) hrep rfl
    have hhalts := hruns.halts (mvlsCounterProg_length adr.id fam)
    rw [hhost] at hhalts
    exact ⟨_, d'.bus, s', hhalts, hrep', hcaptures, rfl, portsWords_length fam s 11,
      counterNow_portsWords fam s⟩
  · refine ⟨mvlsCounterCb_shown hlen err prev, ?_, mvlsCounterCb_lines hlen err prev⟩
    rw [mvlsCounterCb_eq hlen]
  · intro reports hlen i n
    have hsum := counterReports_sum (fun _ _ => 0) reports hlen i n
    rwa [show (0 : BitVec 32).toNat = 0 from rfl, Nat.zero_add] at hsum

/-- A switch whose counters grow by 3 from capture to capture, and wrap. -/
def growingSwitch : StatsSwitch where
  regs _ := 0
  busy := 2
  times k := k + 1
  live k port counter := port.setWidth 32 + counter.setWidth 32 + BitVec.ofNat 32 (3 * k) - 100
  snapshot _ := 0
  counter := 0
  junk := 0xdead
  captures := []

/-- The hypotheses are met by such a switch with address 4, of family Peridot,
and by two reports. -/
theorem mvlsCounterProg_reports_growing :
    (∃ words b' s', (mdioNlEval (mvlsCounterProg 4 .peridot) (smiCore statsCore 4 0xbeef).bus
        quietHost).Halts (.entry [] ⟨growingSwitch, 0, 0, none, fun k => k⟩)
      (.returned .progEnd 0 words b') ∧ b'.core = s' ∧ words.length = 132) ∧
    (mvlsCounterCb (List.replicate 132 7) 0 fun _ _ => 0).Shown ∧
    printedTotal (counterReports (fun _ _ => 0) [List.replicate 132 7, List.replicate 132 5]) 3 2 %
      2 ^ 32 = (lastCounters (fun _ _ => 0) [List.replicate 132 7, List.replicate 132 5] 3 2).toNat := by
  obtain ⟨⟨words, b', s', hhalts, hrep, -, -, hlen, -⟩, hshown, hsum⟩ :=
    mvlsCounterProg_reports (.multi 4 0xbeef (by decide)) .peridot
      (b := ⟨growingSwitch, 0, 0, none, fun k => k⟩) (s := growingSwitch) ⟨rfl, rfl⟩
  refine ⟨⟨words, b', s', hhalts, hrep.2, hlen⟩, (hshown _ _ _ List.length_replicate).1,
    hsum _ ?_ 3 2⟩
  intro data hdata
  rcases List.mem_cons.mp hdata with rfl | hdata
  · exact List.length_replicate
  · rw [List.mem_singleton.mp hdata]
    exact List.length_replicate

end MdioTools.Device
