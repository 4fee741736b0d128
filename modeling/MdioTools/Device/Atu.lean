import MdioTools.Client.Atu
import MdioTools.Device.SwitchCore

/-!
# Flushing the address table

The address translation unit of a switch has an operation register, whose busy
bit is set while an operation runs, and a register with the filtering identifier
that an operation is limited to.  A flush waits until the unit is idle and
starts one operation; before that, it sets the filtering identifier if it is
limited to one.

Main results:

- Definition {lit}`atuCore`: the unit, with a log of the writes and of the
  operations started.
- Theorem {lit}`mvlsAtuProg_runs`: what a flush does to it.
- Theorem {lit}`mvlsAtuExec_preserves_iff`: when it keeps what it does not set.
- Theorem {lit}`mvlsAtuExec_exact_iff`: when nothing is sent for words that are
  no flush.
-/

namespace MdioTools.Device

open Client Kernel Library

/-! ## The unit -/

/-- The register numbers of the driver. -/
def atuFidReg : BitVec 32 := mvlsReg mvlsG1 0x01

def atuOpReg : BitVec 32 := mvlsReg mvlsG1 0x0b

/-- The registers that they stand for. -/
def atuFid : BitVec 5 × BitVec 5 := (0x1b, 0x01)

def atuOp : BitVec 5 × BitVec 5 := (0x1b, 0x0b)

/-- The registers of a switch, the reads of the operation register that will
still find it busy, these numbers for the operations to come, the writes of
registers and the operations that have been started. -/
structure AtuSwitch where
  regs : SwitchRegs
  busy : Nat
  times : Nat → Nat
  writes : List ((BitVec 5 × BitVec 5) × BitVec 16)
  ops : List (BitVec 16)

namespace AtuSwitch

/-- A read.  The busy bit of the operation register tells whether an operation
runs. -/
def get (a : BitVec 5 × BitVec 5) (s : AtuSwitch) : BitVec 16 × AtuSwitch :=
  if a = atuOp then
    match s.busy with
    | 0 => (s.regs a &&& 0x7fff, s)
    | n + 1 => (s.regs a ||| 0x8000, { s with busy := n })
  else (s.regs a, s)

/-- A write.  The busy bit starts an operation; while one runs, the operation
register cannot be written. -/
def put (a : BitVec 5 × BitVec 5) (val : BitVec 16) (s : AtuSwitch) : AtuSwitch :=
  let s := { s with writes := s.writes ++ [(a, val)] }
  if a = atuOp ∧ s.busy ≠ 0 then s
  else
    let s := { s with regs := Function.update s.regs a val }
    if a = atuOp ∧ val.getLsbD 15 then
      { s with busy := s.times 0, times := fun k => s.times (k + 1), ops := s.ops ++ [val] }
    else s

/-- The unit behind its operation. -/
def idle (s : AtuSwitch) : AtuSwitch :=
  { s with busy := 0 }

end AtuSwitch

def atuCore : SwitchCore AtuSwitch where
  get := AtuSwitch.get
  put := AtuSwitch.put

/-- The FID register is one of a global port. -/
theorem switchReg_atuFid : SwitchReg atuFidReg :=
  ⟨mvlsG1, 0x01, by decide, by decide, rfl⟩

/-- The operation register is one of a global port. -/
theorem switchReg_atuOp : SwitchReg atuOpReg :=
  ⟨mvlsG1, 0x0b, by decide, by decide, rfl⟩

/-- Waiting for the unit ends when its operation does. -/
theorem atuCore_polls (s : AtuSwitch) : atuCore.Polls atuOp s s.idle := by
  apply SwitchCore.polls_countdown AtuSwitch.busy AtuSwitch.idle
  · rintro ⟨regs, busy, times, writes, ops⟩ rfl
    exact ⟨regs atuOp &&& 0x7fff, rfl, by simp⟩
  · rintro ⟨regs, busy, times, writes, ops⟩ n rfl
    exact ⟨regs atuOp ||| 0x8000, ⟨regs, n, times, writes, ops⟩, rfl, by simp, rfl, rfl⟩

/-! ## The flush -/

/-- The word that a flush writes to the filtering identifier. -/
def atuFidWord (s : AtuSwitch) (fid : BitVec 32) : BitVec 16 :=
  s.regs atuFid &&& (0xf0000 : BitVec 32).setWidth 16 ||| (fid &&& 0xfff).setWidth 16

/-- The word that starts the operation of a flush. -/
def atuOpWord (s : AtuSwitch) (op : BitVec 8) : BitVec 16 :=
  s.regs atuOp &&& (0x7fff : BitVec 16) &&& (0xfff : BitVec 32).setWidth 16 |||
    (1 <<< 15 ||| op.setWidth 32 <<< 12 : BitVec 32).setWidth 16

/-- The unit limited to a filtering identifier. -/
def AtuSwitch.limit (s : AtuSwitch) : Option (BitVec 32) → AtuSwitch
  | none => s
  | some fid => s.put atuFid (atuFidWord s fid)

/-- The unit behind a flush. -/
def AtuSwitch.flush (s : AtuSwitch) (fid : Option (BitVec 32)) (op : BitVec 8) : AtuSwitch :=
  ((s.limit fid).idle.put atuOp (atuOpWord (s.limit fid) op)).idle

/-- The fragment that limits a flush. -/
def atuLimit (id : BitVec 16) : Option (BitVec 32) → MdioProg
  | none => []
  | some fid => mvlsModify id atuFidReg 0xf0000 (fid &&& 0xfff)

/-- The program limits the FID, waits, starts the operation and waits again. -/
theorem mvlsAtuProg_eq (id : BitVec 16) (fid : Option (BitVec 32)) (op : BitVec 8) :
    mvlsAtuProg id fid op = atuLimit id fid ++ (mvlsWait id [] atuOpReg ++
      (mvlsModify id atuOpReg 0xfff (1 <<< 15 ||| op.setWidth 32 <<< 12) ++
        mvlsWait id [] atuOpReg)) := by
  have hread : ∀ prog reg, mvlsReadTo id prog reg 0 = prog ++ mvlsRead id [] reg :=
    fun prog reg => mvlsRead_append id prog reg
  unfold mvlsAtuProg
  simp only [mdioProgPush, mvlsWait_append id (_ ++ _), mvlsWrite_append id (_ ++ _), hread]
  cases fid with
  | none => simp [atuLimit, mvlsModify, atuOpReg]
  | some fid =>
      simp only [atuLimit, mvlsModify, atuOpReg, atuFidReg]
      rw [mvlsWait_append, mvlsWrite_append]
      simp only [List.append_assoc, List.nil_append]

variable (adr : Addressing) {s : AtuSwitch}

/-- Limiting the operation to a FID on the switch. -/
theorem atuLimit_runs (fid : Option (BitVec 32)) {d : VmData Words (adr.State AtuSwitch)}
    (hrep : adr.Represents d.bus s) :
    ∃ d', Runs (adr.device atuCore) (atuLimit adr.id fid) d d' ∧ Scratch d d' ∧
      adr.Represents d'.bus (s.limit fid) := by
  cases fid with
  | none => exact ⟨d, Runs.nil, ⟨rfl, fun _ _ => rfl⟩, hrep⟩
  | some fid => exact adr.modify_runs atuCore switchReg_atuFid 0xf0000 (fid &&& 0xfff) hrep

/-- What the program of a flush does. -/
theorem mvlsAtuProg_runs (fid : Option (BitVec 32)) (op : BitVec 8)
    {d : VmData Words (adr.State AtuSwitch)} (hrep : adr.Represents d.bus s) :
    ∃ d', Runs (adr.device atuCore) (mvlsAtuProg adr.id fid op) d d' ∧ d'.host = d.host ∧
      adr.Represents d'.bus (s.flush fid op) := by
  obtain ⟨d₁, hlimit, hscratch₁, hrep₁⟩ := atuLimit_runs adr fid hrep
  obtain ⟨d₂, hwait, hscratch₂, hrep₂⟩ :=
    adr.wait_runs atuCore switchReg_atuOp (atuCore_polls (s.limit fid)) hrep₁
  obtain ⟨d₃, hstart, hscratch₃, hrep₃⟩ := adr.modify_runs atuCore switchReg_atuOp 0xfff
    (1 <<< 15 ||| op.setWidth 32 <<< 12) hrep₂
  obtain ⟨d', hend, hscratch', hrep'⟩ :=
    adr.wait_runs atuCore switchReg_atuOp (atuCore_polls _) hrep₃
  refine ⟨d', ?_, ?_, hrep'⟩
  · rw [mvlsAtuProg_eq]
    exact hlimit.append (hwait.append (hstart.append hend))
  · exact (((hscratch₁.trans hscratch₂).trans hscratch₃).trans hscratch').host

/-- The program fits in a request. -/
theorem mvlsAtuProg_length (id : BitVec 16) (fid : Option (BitVec 32)) (op : BitVec 8) :
    (mvlsAtuProg id fid op).length ≤ 512 := by
  have hwait := mvlsWait_length id atuOpReg
  have hstart := mvlsModify_length id atuOpReg 0xfff (1 <<< 15 ||| op.setWidth 32 <<< 12)
  have hlimit : (atuLimit id fid).length ≤ 18 := by
    cases fid with
    | none => exact Nat.zero_le _
    | some fid => exact mvlsModify_length id atuFidReg 0xf0000 (fid &&& 0xfff)
  simp only [mvlsAtuProg_eq, List.length_append]
  omega

/-! ## What a flush writes -/

/-- A write of another register than the operation register is a write. -/
theorem AtuSwitch.put_of_ne (s : AtuSwitch) {a : BitVec 5 × BitVec 5} (h : a ≠ atuOp)
    (val : BitVec 16) : s.put a val =
      { s with regs := Function.update s.regs a val, writes := s.writes ++ [(a, val)] } := by
  simp [AtuSwitch.put, h]

/-- A word with the busy bit starts an operation of an idle unit. -/
theorem AtuSwitch.put_op {s : AtuSwitch} (hidle : s.busy = 0) {val : BitVec 16}
    (hbusy : val.getLsbD 15 = true) : s.put atuOp val =
      { regs := Function.update s.regs atuOp val
        busy := s.times 0
        times := fun k => s.times (k + 1)
        writes := s.writes ++ [(atuOp, val)]
        ops := s.ops ++ [val] } := by
  simp [AtuSwitch.put, hidle, hbusy]

/-- The FID and the operation have different registers. -/
theorem atuFid_ne : atuFid ≠ atuOp := by decide

/-- The writes that limit a flush. -/
def atuLimitWrites (s : AtuSwitch) : Option (BitVec 32) → List ((BitVec 5 × BitVec 5) × BitVec 16)
  | none => []
  | some fid => [(atuFid, atuFidWord s fid)]

/-- Limiting writes the FID register and nothing else. -/
theorem AtuSwitch.limit_fields (s : AtuSwitch) (fid : Option (BitVec 32)) :
    (s.limit fid).writes = s.writes ++ atuLimitWrites s fid ∧ (s.limit fid).ops = s.ops ∧
      (s.limit fid).regs atuOp = s.regs atuOp ∧
      ∀ f ∈ fid, (s.limit fid).regs atuFid = atuFidWord s f := by
  cases fid with
  | none => exact ⟨by simp [limit, atuLimitWrites], rfl, rfl, by simp⟩
  | some fid =>
      have hput := s.put_of_ne atuFid_ne (atuFidWord s fid)
      rw [limit, hput]
      refine ⟨rfl, rfl, Function.update_of_ne atuFid_ne.symm (atuFidWord s fid) s.regs, ?_⟩
      rintro f ⟨⟩
      exact Function.update_self atuFid (atuFidWord s fid) s.regs

/-- The operation is started by its busy bit. -/
theorem atuOpWord_busy (s : AtuSwitch) (op : BitVec 8) : (atuOpWord s op).getLsbD 15 = true := by
  simp [atuOpWord]

/-- A flush writes the filtering identifier, if it is limited to one, and starts
one operation. -/
theorem AtuSwitch.flush_fields (s : AtuSwitch) (fid : Option (BitVec 32)) (op : BitVec 8) :
    (s.flush fid op).writes = s.writes ++ atuLimitWrites s fid ++ [(atuOp, atuOpWord s op)] ∧
      (s.flush fid op).ops = s.ops ++ [atuOpWord s op] ∧ (s.flush fid op).busy = 0 ∧
      ∀ f ∈ fid, (s.flush fid op).regs atuFid = atuFidWord s f := by
  obtain ⟨hwrites, hops, hreg, hfid⟩ := s.limit_fields fid
  have hword : atuOpWord (s.limit fid) op = atuOpWord s op := by rw [atuOpWord, hreg, atuOpWord]
  have hstart := put_op (s := (s.limit fid).idle) rfl (atuOpWord_busy s op)
  rw [flush, hword, hstart]
  refine ⟨?_, ?_, rfl, fun f hf => ?_⟩
  · rw [← hwrites]
    rfl
  · rw [← hops]
    rfl
  · rw [← hfid f hf]
    exact Function.update_of_ne atuFid_ne (atuOpWord s op) (s.limit fid).regs

/-! ## The words -/

/-- The operation word keeps bits 11:0, and has the operation above them. -/
theorem atuOpWord_fields (s : AtuSwitch) (op : BitVec 3) :
    (atuOpWord s (op.setWidth 8)).extractLsb' 12 3 = op ∧
      (atuOpWord s (op.setWidth 8)).setWidth 12 = (s.regs atuOp).setWidth 12 := by
  have hall : ∀ op : BitVec 3,
      ((1 <<< 15 ||| (op.setWidth 8 : BitVec 8).setWidth 32 <<< 12 : BitVec 32).setWidth 16 :
        BitVec 16).extractLsb' 12 3 = op ∧
      ((1 <<< 15 ||| (op.setWidth 8 : BitVec 8).setWidth 32 <<< 12 : BitVec 32).setWidth 16 :
        BitVec 16).setWidth 12 = 0 := by
    decide
  have hkeep : ((0x7fff : BitVec 16) &&& (0xfff : BitVec 32).setWidth 16).extractLsb' 12 3 = 0 ∧
      ((0x7fff : BitVec 16) &&& (0xfff : BitVec 32).setWidth 16).setWidth 12 = BitVec.allOnes 12 := by
    decide
  rw [atuOpWord, BitVec.and_assoc]
  constructor
  · rw [BitVec.extractLsb'_or, BitVec.extractLsb'_and, hkeep.1, (hall op).1]
    simp
  · rw [BitVec.setWidth_or, BitVec.setWidth_and, hkeep.2, (hall op).2, BitVec.and_allOnes]
    exact BitVec.or_zero

/-- The filtering identifier is set, and nothing is kept: the mask has no bits
in the width of the register. -/
theorem atuFidWord_eq (s : AtuSwitch) (F : BitVec 12) :
    atuFidWord s (F.setWidth 32) = F.setWidth 16 := by
  have hmask : ((0xf0000 : BitVec 32).setWidth 16 : BitVec 16) = 0 := rfl
  have hlow : (0xfff : BitVec 32) = (BitVec.allOnes 12).setWidth 32 := rfl
  have hfid : (F.setWidth 32 : BitVec 32) &&& 0xfff = F.setWidth 32 := by
    rw [hlow, ← BitVec.setWidth_and, BitVec.and_allOnes]
  rw [atuFidWord, hmask, hfid, BitVec.setWidth_setWidth_of_le _ (by omega)]
  simp

/-- The word has the FID in its low bits, and above it four bits that are clear. -/
theorem atuFidWord_fields (s : AtuSwitch) (F : BitVec 12) :
    (atuFidWord s (F.setWidth 32)).setWidth 12 = F ∧
      (atuFidWord s (F.setWidth 32)).extractLsb' 12 4 = 0 := by
  rw [atuFidWord_eq]
  constructor
  · rw [BitVec.setWidth_setWidth_of_le _ (by omega), BitVec.setWidth_eq]
  · apply BitVec.eq_of_toNat_eq
    have hF := F.isLt
    simp only [BitVec.extractLsb'_toNat, BitVec.toNat_setWidth, Nat.shiftRight_eq_div_pow,
      BitVec.ofNat_eq_ofNat, BitVec.toNat_ofNat]
    omega

/-! ## What a flush should keep -/

/-- The writes that limit a flush and keep bits 15:12 of the register. -/
def AtuSwitch.Limits (s : AtuSwitch) :
    Option (BitVec 12) → List ((BitVec 5 × BitVec 5) × BitVec 16) → Prop
  | none, ws => ws = []
  | some F, ws => ∃ word, ws = [(atuFid, word)] ∧ word.setWidth 12 = F ∧
      word.extractLsb' 12 4 = (s.regs atuFid).extractLsb' 12 4

/-- A flush starts one operation and nothing else, waits for its end, keeps bits
11:0 of the operation register, and sets the filtering identifier before, if it
is limited to one; it writes no other register. -/
def AtuSwitch.Preserves (s : AtuSwitch) (fid : Option (BitVec 12)) (op : BitVec 3)
    (s' : AtuSwitch) : Prop :=
  ∃ ws word, s.Limits fid ws ∧ s'.writes = s.writes ++ ws ++ [(atuOp, word)] ∧
    s'.ops = s.ops ++ [word] ∧ s'.busy = 0 ∧ word.extractLsb' 12 3 = op ∧
    word.setWidth 12 = (s.regs atuOp).setWidth 12

/-- The flush keeps all this if there is nothing to keep in bits 15:12 of the
filtering identifier. -/
theorem AtuSwitch.preserves_flush_iff (s : AtuSwitch) (fid : Option (BitVec 12)) (op : BitVec 3) :
    s.Preserves fid op (s.flush (fid.map (·.setWidth 32)) (op.setWidth 8)) ↔
      (fid ≠ none → (s.regs atuFid).extractLsb' 12 4 = 0) := by
  obtain ⟨hwrites, hops, hbusy, -⟩ := s.flush_fields (fid.map (·.setWidth 32)) (op.setWidth 8)
  obtain ⟨hop, hkeep⟩ := atuOpWord_fields s op
  constructor
  · rintro ⟨ws, word, hlimits, hwrites', -⟩ hfid
    obtain ⟨F, rfl⟩ := Option.ne_none_iff_exists'.mp hfid
    obtain ⟨v, rfl, -, hhigh⟩ := hlimits
    have hsame : [(atuFid, atuFidWord s (F.setWidth 32)),
        (atuOp, atuOpWord s (op.setWidth 8))] = [(atuFid, v), (atuOp, word)] := by
      rw [hwrites, List.append_assoc, List.append_assoc] at hwrites'
      exact List.append_cancel_left hwrites'
    simp only [List.cons.injEq, Prod.mk.injEq, true_and] at hsame
    rw [← hhigh, ← hsame.1]
    exact (atuFidWord_fields s F).2
  · intro hzero
    refine ⟨_, _, ?_, hwrites, hops, hbusy, hop, hkeep⟩
    cases fid with
    | none => rfl
    | some F =>
        obtain ⟨hlow, hhigh⟩ := atuFidWord_fields s F
        exact ⟨_, rfl, hlow, hhigh.trans (hzero (Option.some_ne_none F)).symm⟩

/-- The run of the program that the client sends for a flush. -/
theorem mvlsAtuExec_halts (adr : Addressing) {argv : List CStr} {fid : Option (BitVec 12)}
    {static : Bool} (hflush : AtuFlush argv fid static) {b : adr.State AtuSwitch} {s : AtuSwitch}
    (hrep : adr.Represents b s) :
    ∃ timeout next, mvlsAtuExec adr.id argv = .xfer (mvlsAtuProg adr.id (fid.map (·.setWidth 32))
        ((atuOpcode fid static).setWidth 8)) timeout next ∧
      ∃ b', (mdioNlEval (mvlsAtuProg adr.id (fid.map (·.setWidth 32))
          ((atuOpcode fid static).setWidth 8)) (adr.device atuCore).bus quietHost).Halts
        (.entry [] b) (.returned .progEnd 0 [] b') ∧
        adr.Represents b'
          (s.flush (fid.map (·.setWidth 32)) ((atuOpcode fid static).setWidth 8)) := by
  obtain ⟨d', hruns, hhost, hrep'⟩ := mvlsAtuProg_runs adr (fid.map (·.setWidth 32))
    ((atuOpcode fid static).setWidth 8) (d := ⟨fun _ => 0, [], b⟩) hrep
  have hhalts := hruns.halts (mvlsAtuProg_length _ _ _)
  rw [show d'.host = [] from hhost] at hhalts
  exact ⟨_, _, mvlsAtuExec_flush adr.id hflush, d'.bus, hhalts, hrep'⟩

/-- For both addressings, every flush that is limited to no filtering identifier
or to one, every state of the switch and every time that the commands and the
operations take, the run of the program that the client sends ends, and it keeps
what it does not set if and only if the flush is limited to no filtering
identifier or bits 15:12 of its register are 0 already. -/
theorem mvlsAtuExec_preserves_iff (adr : Addressing) {argv : List CStr}
    {fid : Option (BitVec 12)} {static : Bool} (hflush : AtuFlush argv fid static)
    {b : adr.State AtuSwitch} {s : AtuSwitch} (hrep : adr.Represents b s) :
    ∃ prog timeout next, mvlsAtuExec adr.id argv = .xfer prog timeout next ∧ ∃ b' s',
      (mdioNlEval prog (adr.device atuCore).bus quietHost).Halts (.entry [] b)
        (.returned .progEnd 0 [] b') ∧ adr.Represents b' s' ∧
      (s.Preserves fid (atuOpcode fid static) s' ↔
        (fid ≠ none → (s.regs atuFid).extractLsb' 12 4 = 0)) := by
  obtain ⟨timeout, next, hsend, b', hhalts, hrep'⟩ := mvlsAtuExec_halts adr hflush hrep
  exact ⟨_, timeout, next, hsend, b', _, hhalts, hrep',
    s.preserves_flush_iff fid (atuOpcode fid static)⟩

/-- The word `5` names filtering identifier 5. -/
theorem namesFid_five : NamesFid "5".toList 5 :=
  ⟨[], [], "5".toList, false, 5, rfl, by simp, .none,
    .decimal (by decide) (by simp only [List.mem_singleton, forall_eq]; exact ⟨5, rfl, by decide⟩),
    rfl⟩

/-- The hypotheses are met by a flush of filtering identifier 5 on switch 4,
while another operation runs. -/
theorem mvlsAtuExec_preserves_iff_five : ∃ b' s',
    (mdioNlEval (mvlsAtuProg 4 (some 5) 6) (smiCore atuCore 4 0xdead).bus quietHost).Halts
      (.entry [] ⟨⟨fun _ => 0x123, 2, fun k => k + 1, [], []⟩, 0, 0, none, fun k => k⟩)
      (.returned .progEnd 0 [] b') ∧
    AtuSwitch.Preserves ⟨fun _ => 0x123, 2, fun k => k + 1, [], []⟩ (some 5) 6 s' := by
  obtain ⟨prog, timeout, next, hsend, b', s', hhalts, -, hiff⟩ :=
    mvlsAtuExec_preserves_iff (.multi 4 0xdead (by decide)) (.fid namesFid_five)
      (b := ⟨⟨fun _ => 0x123, 2, fun k => k + 1, [], []⟩, 0, 0, none, fun k => k⟩)
      (s := ⟨fun _ => 0x123, 2, fun k => k + 1, [], []⟩) ⟨rfl, rfl⟩
  cases hsend
  exact ⟨b', s', hhalts, hiff.mpr fun _ => rfl⟩

/-- A switch with 15 in bits 15:12 of the filtering identifier. -/
def highFidSwitch : AtuSwitch :=
  ⟨fun a => if a = atuFid then 0xf000 else 0, 2, fun _ => 3, [], []⟩

/-- A flush of filtering identifier 5 clears these bits. -/
theorem mvlsAtuExec_clears_high : ∃ prog timeout next,
    mvlsAtuExec 0 ["flush".toList, "5".toList] = .xfer prog timeout next ∧ ∃ s',
      (mdioNlEval prog (directCore atuCore).bus quietHost).Halts (.entry [] highFidSwitch)
        (.returned .progEnd 0 [] s') ∧ ¬highFidSwitch.Preserves (some 5) 6 s' := by
  obtain ⟨timeout, next, hsend, s', hhalts, rfl⟩ := mvlsAtuExec_halts .single
    (.fid namesFid_five) (b := highFidSwitch) (s := highFidSwitch) rfl
  refine ⟨_, timeout, next, hsend, _, hhalts, fun hpreserves => ?_⟩
  have hzero := (highFidSwitch.preserves_flush_iff (some 5) 6).mp hpreserves
    (Option.some_ne_none 5)
  exact absurd hzero (by decide)

/-! ## Words that are no flush -/

/-- A flush starts one operation, and the filtering identifier is the one it is
limited to. -/
def AtuSwitch.ActsOn (s : AtuSwitch) (fid : Option (BitVec 12)) (op : BitVec 3)
    (s' : AtuSwitch) : Prop :=
  (∃ word, s'.ops = s.ops ++ [word] ∧ word.extractLsb' 12 3 = op) ∧
    ∀ F ∈ fid, (s'.regs atuFid).setWidth 12 = F

/-- A flush acts on what its words ask for. -/
theorem AtuSwitch.actsOn_flush (s : AtuSwitch) (fid : Option (BitVec 12)) (op : BitVec 3) :
    s.ActsOn fid op (s.flush (fid.map (·.setWidth 32)) (op.setWidth 8)) := by
  obtain ⟨-, hops, -, hfid⟩ := s.flush_fields (fid.map (·.setWidth 32)) (op.setWidth 8)
  refine ⟨⟨_, hops, (atuOpWord_fields s op).1⟩, ?_⟩
  rintro F ⟨⟩
  rw [hfid (F.setWidth 32) rfl]
  exact (atuFidWord_fields s F).1

/-- The client sends a flush that acts on what its words ask for, and returns an
error and sends nothing for words that are no flush. -/
def AtuExact (adr : Addressing) (argv : List CStr) : Prop :=
  (∀ fid static, AtuFlush argv fid static → ∃ prog timeout next,
    mvlsAtuExec adr.id argv = .xfer prog timeout next ∧
    ∀ (b : adr.State AtuSwitch) (s : AtuSwitch), adr.Represents b s → ∃ b' s',
      (mdioNlEval prog (adr.device atuCore).bus quietHost).Halts (.entry [] b)
        (.returned .progEnd 0 [] b') ∧ adr.Represents b' s' ∧
      s.ActsOn fid (atuOpcode fid static) s') ∧
  ((∀ fid static, ¬AtuFlush argv fid static) →
    ∃ status msgs, mvlsAtuExec adr.id argv = .exit status msgs ∧ status ≠ 0)

/-- For both addressings and every list of words, the client does so if and only
if the list is none of the slips. -/
theorem mvlsAtuExec_exact_iff (adr : Addressing) (argv : List CStr) :
    AtuExact adr argv ↔ ¬AtuSlip argv := by
  constructor
  · rintro ⟨-, hrejects⟩ hslip
    obtain ⟨status, msgs, hexit, -⟩ := hrejects hslip.not_flush
    obtain ⟨fid, op, hsends⟩ := hslip.sends adr.id
    rw [hexit] at hsends
    cases hsends
  · intro hslip
    refine ⟨fun fid static hflush => ?_, fun hflush => ?_⟩
    · refine ⟨_, _, _, mvlsAtuExec_flush adr.id hflush, fun b s hrep => ?_⟩
      obtain ⟨-, -, -, b', hhalts, hrep'⟩ := mvlsAtuExec_halts adr hflush hrep
      exact ⟨b', _, hhalts, hrep', s.actsOn_flush fid (atuOpcode fid static)⟩
    · obtain ⟨msg, hexit⟩ := mvlsAtuExec_rejects adr.id hflush hslip
      exact ⟨1, [msg], hexit, by decide⟩

/-- The client reads the option in `flush static` as filtering identifier 0, and
sends a flush. -/
theorem mvlsAtuExec_flush_static : ¬AtuExact .single ["flush".toList, "static".toList] := by
  rintro ⟨-, hrejects⟩
  have hnone : ∀ fid static, ¬AtuFlush ["flush".toList, "static".toList] fid static := by
    intro fid static hflush
    generalize hargv : ["flush".toList, "static".toList] = argv at hflush
    cases hflush with
    | everything | all | allStatic => cases hargv
    | fid hword =>
        cases hargv
        exact absurd (hword.head_ne_letter (c := 's') rfl) (by decide)
    | fidStatic hword => cases hargv
  obtain ⟨status, msgs, hexit, -⟩ := hrejects hnone
  cases hexit

end MdioTools.Device
