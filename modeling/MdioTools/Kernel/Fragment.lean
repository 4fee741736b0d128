import MdioTools.Kernel.Refinement

/-!
# What the client's fragments do

The client puts programs together from fragments of a few instructions.  This
module says what a fragment does on a bus that answers every access and for a
host that is never late, in terms of the instruction words the client writes,
and carries the result over to the C interpreter.

Main results:

- Theorems {lit}`Runs.read`, {lit}`Runs.write`, {lit}`Runs.alu` and
  {lit}`Runs.emit`: the effect of one instruction word.
- Theorems {lit}`Runs.skip_next` and {lit}`Runs.keep_next`: a jump over one
  instruction; {lit}`Runs.jump_back` and {lit}`Runs.jump_past`: a jump back to
  the start of the fragment; {lit}`Runs.count_loop`: a loop that counts.
- Theorems {lit}`busRead_runs` and {lit}`busWrite_runs`: the transactions of a
  driver, with a fixed register.
- Theorems {lit}`Runs.halts` and {lit}`Runs.reaches`: a fragment as a whole
  program and inside a longer one, run by {lit}`mdio_nl_eval`.
- Theorem {lit}`mdioNlEval_quiet`: a run without a negative status is the run for
  the host that is never late.
-/

namespace MdioTools.Kernel

open Library

/-! ## Answering devices -/

/-- A bus on which every access succeeds. -/
structure Device (β : Type) where
  read : MdioTarget → BitVec 16 → β → BitVec 16 × β
  write : MdioTarget → BitVec 16 → BitVec 16 → β → β

variable {β : Type}

/-- The bus operations of an answering device. -/
def Device.bus (dev : Device β) : MiiBus β where
  read t reg b := (((dev.read t reg b).1.toNat : Int), (dev.read t reg b).2)
  write t reg val b := (0, dev.write t reg val b)

/-- The words a request has emitted. -/
abbrev Words : Type :=
  List (BitVec 32)

/-- A host that is never late and keeps the emitted words in order. -/
def quietHost : Host Words where
  expired h := (false, h)
  emit w h := (0, h ++ [w])

namespace VmData

variable {π : Type}

/-- Set a register. -/
def set (d : VmData π β) (r : Fin 8) (value : BitVec 16) : VmData π β :=
  { d with regs := Function.update d.regs r value }

/-- The register that is set. -/
@[simp]
theorem set_regs_self (d : VmData π β) (r : Fin 8) (value : BitVec 16) :
    (d.set r value).regs r = value :=
  Function.update_self ..

/-- The other registers stay. -/
@[simp]
theorem set_regs_of_ne (d : VmData π β) {r r' : Fin 8} (h : r' ≠ r) (value : BitVec 16) :
    (d.set r value).regs r' = d.regs r' :=
  Function.update_of_ne h ..

@[simp]
theorem set_host (d : VmData π β) (r : Fin 8) (value : BitVec 16) :
    (d.set r value).host = d.host :=
  rfl

@[simp]
theorem set_bus (d : VmData π β) (r : Fin 8) (value : BitVec 16) :
    (d.set r value).bus = d.bus :=
  rfl

end VmData

/-! ## Operand words -/

/-- `IMM(n)` is decoded as an immediate of 16 bits. -/
@[simp]
theorem decodeRi_immArg (n : BitVec 32) :
    decodeRi ((immArg n).setWidth 18) = some (.imm (n.setWidth 16)) := by
  simp only [decodeRi, immArg, argMode_argWord, argVal_argWord]

/-- `REG(r)` is decoded as a register. -/
@[simp]
theorem decodeRi_regArg (r : BitVec 32) :
    decodeRi ((regArg r).setWidth 18) = some (.reg (regIndex r)) := by
  have hmode : argMode ((regArg r).setWidth 18) = .reg := argMode_argWord _ _
  simp only [decodeRi, hmode, argIndex_regArg]

/-- The operand word made of a 16-bit value has that value. -/
@[simp]
theorem setWidth_setWidth32 (x : BitVec 16) : (x.setWidth 32 : BitVec 32).setWidth 16 = x := by
  rw [BitVec.setWidth_setWidth_of_le _ (by omega), BitVec.setWidth_eq]

/-- The distance of a jump does not depend on where the program starts. -/
theorem gotoArg_shift (n src dst : Int) : gotoArg (n + src) (n + dst) = gotoArg src dst := by
  unfold gotoArg
  congr 2
  omega

/-! ## Runs of a fragment -/

/-- A fragment of words leads from `d` to `d'`, wherever it stands in a
program. -/
def Runs (dev : Device β) (frag : List MdioNlInsn) (d d' : VmData Words β) : Prop :=
  ∃ vfrag, Decodes frag vfrag ∧ Exec (vmSem dev.bus quietHost) vfrag d d'

variable {dev : Device β} {frag frag' : List MdioNlInsn} {d d' d'' : VmData Words β}

/-- Programs are decoded part by part. -/
theorem Decodes.append {prog prog' : List MdioNlInsn} {vprog vprog' : List VmInsn}
    (h : Decodes prog vprog) (h' : Decodes prog' vprog') :
    Decodes (prog ++ prog') (vprog ++ vprog') := by
  unfold Decodes at h h' ⊢
  rw [List.map_append, List.map_append, h, h']

/-- A program of one instruction. -/
theorem Decodes.singleton {i : MdioNlInsn} {v : VmInsn} (h : decodeInsn i = some v) :
    Decodes [i] [v] := by
  simp [Decodes, h]

/-- The empty fragment does nothing. -/
theorem Runs.nil : Runs dev [] d d :=
  ⟨[], rfl, Exec.nil⟩

/-- Fragments run one after the other. -/
theorem Runs.append (h : Runs dev frag d d') (h' : Runs dev frag' d' d'') :
    Runs dev (frag ++ frag') d d'' := by
  obtain ⟨vfrag, hdec, hexec⟩ := h
  obtain ⟨vfrag', hdec', hexec'⟩ := h'
  exact ⟨vfrag ++ vfrag', hdec.append hdec', hexec.append hexec'⟩

/-! ## One instruction -/

section Insns

variable {a b c : BitVec 32} {A B C : Operand}

/-- A word whose instruction goes on to the next one. -/
theorem Runs.single {i : MdioNlInsn} {v : VmInsn} (hdec : decodeInsn i = some v)
    (hexec : v.exec dev.bus quietHost d = .inl (1, d')) : Runs dev [i] d d' :=
  ⟨[v], Decodes.singleton hdec, Exec.single hexec⟩

/-- READ puts the word it gets into the register. -/
theorem Runs.read (dev : Device β) (d : VmData Words β) (ha : decodeRi (a.setWidth 18) = some A)
    (hb : decodeRi (b.setWidth 18) = some B) (r : BitVec 32) :
    Runs dev [insn .read a b (regArg r)] d
      (({ d with bus := (dev.read (mdioTarget (A.eval d.regs)) (B.eval d.regs) d.bus).2 }).set
        (regIndex r) (dev.read (mdioTarget (A.eval d.regs)) (B.eval d.regs) d.bus).1) := by
  apply Runs.single (v := .read A B (regIndex r))
  · simp [decodeInsn, insn, ha, hb]
  · have hnonneg : ∀ x : BitVec 16, ¬((x.toNat : Int) < 0) := fun x => by omega
    simp only [VmInsn.exec, Device.bus, VmData.set]
    rw [BitVec.ofInt_natCast, BitVec.ofNat_toNat, BitVec.setWidth_eq]
    exact if_neg (hnonneg _)

/-- WRITE changes the bus only. -/
theorem Runs.write (dev : Device β) (d : VmData Words β) (ha : decodeRi (a.setWidth 18) = some A)
    (hb : decodeRi (b.setWidth 18) = some B) (hc : decodeRi (c.setWidth 18) = some C) :
    Runs dev [insn .write a b c] d
      ⟨d.regs, d.host,
        dev.write (mdioTarget (A.eval d.regs)) (B.eval d.regs) (C.eval d.regs) d.bus⟩ := by
  apply Runs.single (v := .write A B C)
  · simp [decodeInsn, insn, ha, hb, hc]
  · simp [VmInsn.exec, Device.bus]

/-- The opcode of an arithmetic operation. -/
@[simp]
def AluOp.toOp : AluOp → MdioNlOp
  | .and => .and
  | .or => .or
  | .add => .add

/-- AND, OR and ADD change a register. -/
theorem Runs.alu (dev : Device β) (d : VmData Words β) (op : AluOp)
    (ha : decodeRi (a.setWidth 18) = some A)
    (hb : decodeRi (b.setWidth 18) = some B) (r : BitVec 32) :
    Runs dev [insn op.toOp a b (regArg r)] d
      (d.set (regIndex r) (op.apply (A.eval d.regs) (B.eval d.regs))) := by
  apply Runs.single (v := .alu op A B (regIndex r))
  · cases op <;> simp [decodeInsn, decodeAlu, insn, AluOp.toOp, ha, hb]
  · rfl

/-- EMIT appends a word. -/
theorem Runs.emit (dev : Device β) (d : VmData Words β) (ha : decodeRi (a.setWidth 18) = some A) :
    Runs dev [insn .emit a 0 0] d
      { d with host := d.host ++ [(A.eval d.regs).setWidth 32] } := by
  apply Runs.single (v := .emit A)
  · simp [decodeInsn, insn, ha]
  · simp [VmInsn.exec, quietHost]

/-! ## Jumps -/

/-- The opcode of a jump. -/
def jumpOp (onEq : Bool) : MdioNlOp :=
  if onEq then .jeq else .jne

/-- `JEQ` and `JNE` are decoded as jumps. -/
theorem decodeInsn_jump (onEq : Bool) {off : BitVec 16} (ha : decodeRi (a.setWidth 18) = some A)
    (hb : decodeRi (b.setWidth 18) = some B) (hc : argI (c.setWidth 18) = some off) :
    decodeInsn (insn (jumpOp onEq) a b c) = some (.jump onEq A B off) := by
  cases onEq <;> simp [decodeInsn, decodeJump, insn, jumpOp, ha, hb, hc]

/-- A jump that is taken passes over the next instruction. -/
theorem Runs.skip_next (onEq : Bool) (ha : decodeRi (a.setWidth 18) = some A)
    (hb : decodeRi (b.setWidth 18) = some B) {i : MdioNlInsn} {v : VmInsn}
    (hdec : decodeInsn i = some v)
    (htaken : decide (A.eval d.regs = B.eval d.regs) = onEq) :
    Runs dev [insn (jumpOp onEq) a b (immArg 1), i] d d := by
  refine ⟨[.jump onEq A B 1, v], ?_, Exec.skip ?_⟩
  · exact (Decodes.singleton (decodeInsn_jump onEq ha hb (argI_immArg 1))).append
      (Decodes.singleton hdec)
  · simp only [vmSem, quietHost, VmInsn.exec, htaken, if_true]
    rfl

/-- A jump that is not taken goes on to the next instruction. -/
theorem Runs.keep_next (onEq : Bool) (ha : decodeRi (a.setWidth 18) = some A)
    (hb : decodeRi (b.setWidth 18) = some B) {off : BitVec 16}
    (hc : argI (c.setWidth 18) = some off)
    (hstay : decide (A.eval d.regs = B.eval d.regs) ≠ onEq) :
    Runs dev [insn (jumpOp onEq) a b c] d d := by
  apply Runs.single (decodeInsn_jump onEq ha hb hc)
  simp only [VmInsn.exec, if_neg hstay]

/-- A fragment that ends with a jump back to its start, taken, runs again. -/
theorem Runs.jump_back (onEq : Bool) {d₁ : VmData Words β} (hbody : Runs dev frag d d₁)
    (hlen : frag.length < 32768) (ha : decodeRi (a.setWidth 18) = some A)
    (hb : decodeRi (b.setWidth 18) = some B)
    (htaken : decide (A.eval d₁.regs = B.eval d₁.regs) = onEq)
    (hagain : Runs dev (frag ++ [insn (jumpOp onEq) a b (gotoArg frag.length 0)]) d₁ d') :
    Runs dev (frag ++ [insn (jumpOp onEq) a b (gotoArg frag.length 0)]) d d' := by
  obtain ⟨vfrag, hdec, hexec⟩ := hbody
  obtain ⟨vall, hall, hexec'⟩ := hagain
  have hjump := Decodes.singleton
    (decodeInsn_jump onEq ha hb (argI_gotoArg frag.length 0))
  have hsame : vall = vfrag ++ [.jump onEq A B (BitVec.ofInt 16 (0 - frag.length - 1))] := by
    have heq := hall.symm.trans (hdec.append hjump)
    exact (List.map_inj_right fun _ _ h => Option.some.inj h).mp heq
  subst hsame
  refine ⟨_, hall, Exec.loop hexec ?_ hexec'⟩
  have hoff : (BitVec.ofInt 16 (0 - frag.length - 1)).toInt = 0 - frag.length - 1 := by
    rw [BitVec.toInt_ofInt]
    exact Int.bmod_eq_of_le (by omega) (by omega)
  simp only [vmSem, quietHost, VmInsn.exec, htaken, if_true, hoff, hdec.length_eq]
  have hdisp : (0 - (frag.length : Int) - 1 + 1) = -frag.length := by omega
  rw [hdisp]
  rfl

/-- A fragment that ends with a jump, not taken, is left. -/
theorem Runs.jump_past (onEq : Bool) {d₁ : VmData Words β} (hbody : Runs dev frag d d₁)
    (ha : decodeRi (a.setWidth 18) = some A) (hb : decodeRi (b.setWidth 18) = some B)
    {off : BitVec 16} (hc : argI (c.setWidth 18) = some off)
    (hstay : decide (A.eval d₁.regs = B.eval d₁.regs) ≠ onEq) :
    Runs dev (frag ++ [insn (jumpOp onEq) a b c]) d d₁ :=
  hbody.append (Runs.keep_next onEq ha hb hc hstay)

/-- A loop that counts in a register: while the register does not hold the last
code, the body takes it to the next one.  What holds behind `k` rounds in front
of each holds behind all of them. -/
theorem Runs.count_loop (r limit : BitVec 32) (code : Nat → BitVec 16) (n : Nat)
    (I : Nat → VmData Words β → Prop) (hlen : frag.length < 32768)
    (hlimit : limit.setWidth 16 = code n) (hne : ∀ k, k < n → code k ≠ code n)
    (hbody : ∀ k d, k < n → d.regs (regIndex r) = code k → I k d →
      ∃ d₁, Runs dev frag d d₁ ∧ d₁.regs (regIndex r) = code (k + 1) ∧ I (k + 1) d₁)
    {k : Nat} {d : VmData Words β} (hk : k < n) (hcode : d.regs (regIndex r) = code k) (hI : I k d) :
    ∃ d', Runs dev (frag ++ [insn .jne (regArg r) (immArg limit) (gotoArg frag.length 0)]) d d' ∧
      I n d' := by
  obtain ⟨d₁, hrun, hcode₁, hI₁⟩ := hbody k d hk hcode hI
  have hlast : (Operand.reg (regIndex r)).eval d₁.regs = code (k + 1) := hcode₁
  by_cases hend : k + 1 = n
  · refine ⟨d₁, ?_, hend ▸ hI₁⟩
    apply Runs.jump_past false hrun (decodeRi_regArg r) (decodeRi_immArg limit) (argI_gotoArg _ _)
    rw [hlast, Operand.eval_imm, hlimit, hend]
    simp
  · obtain ⟨d', hrest, hI'⟩ := Runs.count_loop r limit code n I hlen hlimit hne hbody
      (Nat.lt_of_le_of_ne hk hend) hcode₁ hI₁
    refine ⟨d', ?_, hI'⟩
    apply Runs.jump_back false hrun hlen (decodeRi_regArg r) (decodeRi_immArg limit) ?_ hrest
    rw [hlast, Operand.eval_imm, hlimit]
    exact decide_eq_false (hne _ (Nat.lt_of_le_of_ne hk hend))
termination_by n - k

end Insns

/-! ## Transactions with fixed registers -/

/-- A read of a fixed register. -/
theorem busRead_runs (dev : Device β) (d : VmData Words β) (id reg r : BitVec 32) :
    Runs dev [insn .read (immArg id) (immArg reg) (regArg r)] d
      (({ d with bus := (dev.read (mdioTarget (id.setWidth 16)) (reg.setWidth 16) d.bus).2 }).set
        (regIndex r) (dev.read (mdioTarget (id.setWidth 16)) (reg.setWidth 16) d.bus).1) :=
  Runs.read dev d (decodeRi_immArg id) (decodeRi_immArg reg) r

/-- A write of a fixed register. -/
theorem busWrite_runs (dev : Device β) (d : VmData Words β) (id reg : BitVec 32) {a : BitVec 32}
    {A : Operand} (ha : decodeRi (a.setWidth 18) = some A) :
    Runs dev [insn .write (immArg id) (immArg reg) a] d
      { d with bus :=
          dev.write (mdioTarget (id.setWidth 16)) (reg.setWidth 16) (A.eval d.regs) d.bus } :=
  Runs.write dev d (decodeRi_immArg id) (decodeRi_immArg reg) ha

/-- A write of a fixed value to a fixed register. -/
theorem busPut_runs (dev : Device β) (d : VmData Words β) (id reg val : BitVec 32) :
    Runs dev [insn .write (immArg id) (immArg reg) (immArg val)] d
      { d with bus :=
          dev.write (mdioTarget (id.setWidth 16)) (reg.setWidth 16) (val.setWidth 16) d.bus } :=
  busWrite_runs dev d id reg (decodeRi_immArg val)

/-! ## Fragments in the interpreter -/

/-- The result of the machine is that of {lit}`mdio_nl_eval`. -/
theorem Decodes.halts {π : Type} {bus : MiiBus β} {host : Host π} {vfrag : List VmInsn}
    (hdec : Decodes frag vfrag) (hlen : frag.length ≤ 512) {h : π} {b : β} {r : VmResult π β}
    (hhalts : (vm vfrag bus host).Halts (.entry h b) r) :
    (mdioNlEval frag bus host).Halts (.entry h b) r.toEval := by
  obtain ⟨n, hn⟩ := hhalts
  have hmatch := mdioNlEval_refines hdec hlen bus host (entry_corresponds frag.length h b) n
  rw [hn] at hmatch
  obtain ⟨r', hrun, hr⟩ := hmatch.to_inr
  exact ⟨n, hrun.trans (congrArg Sum.inr hr)⟩

/-- A fragment as a whole program: {lit}`mdio_nl_eval` ends with status 0. -/
theorem Runs.halts {words : Words} {b : β} (h : Runs dev frag ⟨fun _ => 0, words, b⟩ d')
    (hlen : frag.length ≤ 512) :
    (mdioNlEval frag dev.bus quietHost).Halts (.entry words b)
      (.returned .progEnd 0 d'.host d'.bus) := by
  obtain ⟨vfrag, hdec, hexec⟩ := h
  exact hdec.halts hlen hexec.halts

/-- The interpreter at an instruction index, with given data. -/
def EvalState.at (i : Nat) (d : VmData Words β) : EvalState Words β where
  pc := BitVec.ofNat 32 i
  regs := d.regs
  ret := 0
  host := d.host
  bus := d.bus

/-- A fragment inside a longer program: {lit}`mdio_nl_eval` goes from its first
instruction to the one behind it. -/
theorem Runs.reaches (h : Runs dev frag d d') {pre post : List MdioNlInsn}
    {vpre vpost : List VmInsn} (hpre : Decodes pre vpre) (hpost : Decodes post vpost)
    (hlen : (pre ++ frag ++ post).length ≤ 512) :
    (mdioNlEval (pre ++ frag ++ post) dev.bus quietHost).Reaches (.at pre.length d)
      (.at (pre ++ frag).length d') := by
  obtain ⟨vfrag, hdec, hexec⟩ := h
  obtain ⟨n, hn⟩ := hexec vpre vpost
  have hdecs := (hpre.append hdec).append hpost
  have hat : ∀ (i : Nat) (d : VmData Words β),
      EvalState.at i d = VmState.toEval ⟨(i : Int), d⟩ := fun i d => by
    simp only [EvalState.at, VmState.toEval, BitVec.ofInt_natCast]
  have hstart : Corresponds (pre ++ frag ++ post).length (EvalState.at pre.length d)
      (⟨vpre.length + 0, d⟩ : VmState Words β) := by
    rw [Int.add_zero, hpre.length_eq, hat]
    exact ⟨rfl, by simp only; omega, by simp only [List.length_append]; omega⟩
  have hmatch := mdioNlEval_refines hdecs hlen dev.bus quietHost hstart n
  refine ⟨n, ?_⟩
  have hvm : (vm (vpre ++ vfrag ++ vpost) dev.bus quietHost).run n ⟨vpre.length + 0, d⟩ =
      .inl ⟨vpre.length + vfrag.length, d'⟩ := hn
  rw [hvm] at hmatch
  obtain ⟨s, hrun, hs, -⟩ := hmatch.to_inl
  rw [hrun, hs, hat, List.length_append, hpre.length_eq, hdec.length_eq, Int.natCast_add]

/-! ## Other hosts -/

section Hosts

variable {π : Type}

/-- The loop variables of one state with another host. -/
def EvalState.withHost {ρ : Type} (s : EvalState π β) (h : ρ) : EvalState ρ β :=
  ⟨s.pc, s.regs, s.ret, h, s.bus⟩

/-- An instruction after which the loop goes on does the same for the quiet
host; one that ends the run leaves a negative status. -/
theorem evalInsn_quiet {bus : MiiBus β} {host : Host π} {insn : MdioNlInsn} {s : EvalState π β}
    {r : EvalState π β ⊕ EvalResult π β} (h : evalInsn bus host insn s = some r) (w : Words) :
    match r with
    | .inl s' => ∃ w', evalInsn bus quietHost insn (s.withHost w) = some (.inl (s'.withHost w'))
    | .inr (.returned _ ret _ _) => ret < 0
    | .inr .bug => False := by
  cases evalInsn_cases h with
  | illegal hop => exact Int.neg_neg_of_pos (by decide)
  | readFailed hop hdev hreg hneg => exact hneg
  | writeFailed hop hdev hreg hval hneg => exact hneg
  | emitFailed hop ha hneg => exact hneg
  | read hop hdev hreg hdst hok =>
      exact ⟨w, by simp [evalInsn, hop, EvalState.withHost, EvalState.store, hdev, hreg, hdst, hok]⟩
  | write hop hdev hreg hval hok =>
      exact ⟨w, by simp [evalInsn, hop, EvalState.withHost, EvalState.next, hdev, hreg, hval, hok]⟩
  | alu hop ha hb hdst =>
      refine ⟨w, ?_⟩
      rcases hop with ⟨hop, rfl⟩ | ⟨hop, rfl⟩ | ⟨hop, rfl⟩ <;>
        simp [evalInsn, hop, EvalState.withHost, EvalState.store, ha, hb, hdst]
  | jump hop ha hb hoff =>
      refine ⟨w, ?_⟩
      rcases hop with ⟨hop, htaken⟩ | ⟨hop, htaken⟩ <;>
        simp [evalInsn, hop, EvalState.withHost, EvalState.jump, ha, hb, hoff, htaken]
  | stay hop ha hb =>
      refine ⟨w, ?_⟩
      rcases hop with ⟨hop, hstay⟩ | ⟨hop, hstay⟩ <;>
        simp [evalInsn, hop, EvalState.withHost, EvalState.next, ha, hb, hstay]
  | @emit a hop ha hok =>
      exact ⟨w ++ [a.setWidth 32],
        by simp [evalInsn, hop, EvalState.withHost, EvalState.next, quietHost, ha]⟩

/-- An iteration that does not end with a negative status is the same for the
quiet host. -/
theorem evalStep_quiet (prog : List MdioNlInsn) (bus : MiiBus β) (host : Host π)
    (s : EvalState π β) (w : Words) :
    match evalStep prog bus host s with
    | .inl s' => ∃ w', evalStep prog bus quietHost (s.withHost w) = .inl (s'.withHost w')
    | .inr (.returned why ret _ b) => ret < 0 ∨
        evalStep prog bus quietHost (s.withHost w) = .inr (.returned why ret w b)
    | .inr .bug => True := by
  unfold evalStep
  by_cases hpc : s.pc.toNat < prog.length
  · rw [dif_pos hpc, dif_pos (show (s.withHost w).pc.toNat < prog.length from hpc)]
    by_cases hlate : (host.expired s.host).1 = true
    · simp only [hlate, if_true]
      exact Or.inl (by decide)
    · simp only [hlate, Bool.false_eq_true, if_false, quietHost]
      cases hinsn : evalInsn bus host prog[s.pc.toNat]
          { s with host := (host.expired s.host).2 } with
      | none => trivial
      | some r =>
          have hquiet := evalInsn_quiet hinsn w
          cases r with
          | inl s' =>
              obtain ⟨w', hw'⟩ := hquiet
              exact ⟨w', congrArg (fun o => o.getD (Sum.inr EvalResult.bug)) hw'⟩
          | inr res =>
              cases res with
              | returned why ret h b => exact Or.inl hquiet
              | bug => trivial
  · rw [dif_neg hpc, dif_neg (show ¬(s.withHost w).pc.toNat < prog.length from hpc)]
    exact Or.inr rfl

/-- A run that does not end with a negative status is the same for the quiet
host, up to the host. -/
theorem mdioNlEval_quiet {prog : List MdioNlInsn} {bus : MiiBus β} {host : Host π} {n : Nat}
    {s : EvalState π β} {why : EvalExit} {ret : Int} {h' : π} {b' : β}
    (hrun : (mdioNlEval prog bus host).run n s = .inr (.returned why ret h' b'))
    (hret : 0 ≤ ret) (w : Words) :
    ∃ w', (mdioNlEval prog bus quietHost).Halts (s.withHost w) (.returned why ret w' b') := by
  induction n generalizing s w with
  | zero => cases hrun
  | succ n ih =>
      have hstep := evalStep_quiet prog bus host s w
      cases hnext : (mdioNlEval prog bus host).step s with
      | inl s' =>
          rw [Machine.run_succ_of_step hnext] at hrun
          rw [show evalStep prog bus host s = .inl s' from hnext] at hstep
          obtain ⟨w', hw'⟩ := hstep
          obtain ⟨w'', hhalts⟩ := ih hrun w'
          exact ⟨w'', (Machine.Reaches.single hw').halts hhalts⟩
      | inr res =>
          rw [Machine.run_succ_of_halt hnext] at hrun
          cases hrun
          rw [show evalStep prog bus host s = .inr (.returned why ret h' b') from hnext] at hstep
          rcases hstep with hneg | hsame
          · omega
          · exact ⟨w, Machine.Halts.single hsame⟩

end Hosts

end MdioTools.Kernel
