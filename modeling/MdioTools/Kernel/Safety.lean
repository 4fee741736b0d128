import MdioTools.Kernel.Refinement

/-!
# Safety of accepted programs

A program that passes the policy is run by {lit}`mdio_nl_eval` without a
{lit}`BUG`, without the illegal-instruction exit, and with integer jumps,
whatever the bus answers, the clock reads and the emits return.  All parts
follow from the lockstep refinement: an interpreter state that is reached
stands for a machine state, and the machine has none of the bad outcomes.

Main results:

- Theorem {lit}`reaches_corresponds`: every reached interpreter state stands
  for a reached machine state.
- Theorem {lit}`mdioNlEval_safe`: the safety of accepted programs.
-/

namespace MdioTools.Kernel

open Library

variable {π β : Type}

/-- The offset of a jump instruction whose test succeeds. -/
def takenJump (insn : MdioNlInsn) (regs : Regs) : Option (BitVec 16) :=
  match MdioNlOp.ofCode insn.op with
  | some .jeq => do
      let a ← argRi insn.arg0 regs
      let b ← argRi insn.arg1 regs
      if a = b then argI insn.arg2 else none
  | some .jne => do
      let a ← argRi insn.arg0 regs
      let b ← argRi insn.arg1 regs
      if a ≠ b then argI insn.arg2 else none
  | _ => none

/-- The value of the bus access or emit made by an instruction. -/
def callResult (bus : MiiBus β) (host : Host π) (d : VmData π β) : VmInsn → Option Int
  | .read dev reg _ => some (bus.read (mdioTarget (dev.eval d.regs)) (reg.eval d.regs) d.bus).1
  | .write dev reg val =>
      some (bus.write (mdioTarget (dev.eval d.regs)) (reg.eval d.regs) (val.eval d.regs) d.bus).1
  | .emit a => some (host.emit ((a.eval d.regs).setWidth 32) d.host).1
  | _ => none

/-- The status of a run that left the loop at state `s`: 0 at the end of the
program, `-ETIMEDOUT` at the deadline, and otherwise the negative value of the
bus access or emit made by the current instruction. -/
def StatusOk (prog : List MdioNlInsn) (bus : MiiBus β) (host : Host π) (s : EvalState π β)
    (why : EvalExit) (ret : Int) : Prop :=
  (why = .progEnd ∧ ret = 0) ∨ (why = .timeout ∧ ret = -etimedout) ∨
    ((why = .access ∨ why = .emit) ∧ ret < 0 ∧
      ∃ insn v, prog[s.pc.toNat]? = some insn ∧ decodeInsn insn = some v ∧
        callResult bus host ⟨s.regs, (host.expired s.host).2, s.bus⟩ v = some ret)

/-- What the run of a safe program from its entry state is like. -/
structure EvalSafe (prog : List MdioNlInsn) (bus : MiiBus β) (host : Host π) (h₀ : π) (b₀ : β) :
    Prop where
  /-- No `BUG` and no illegal-instruction exit. -/
  no_bug : ∀ r, (mdioNlEval prog bus host).Halts (.entry h₀ b₀) r →
    ∃ why ret h b, r = .returned why ret h b ∧ why ≠ .illegal
  /-- The counter stands for an integer that decides the loop test, and an
  instruction is fetched only at an index inside the program.  It decodes, so
  its register operands are among 0 to 7. -/
  fetch_ok : ∀ s, (mdioNlEval prog bus host).Reaches (.entry h₀ b₀) s →
    ∃ pc : Int, s.pc = BitVec.ofInt 32 pc ∧
      (s.pc.toNat < prog.length ↔ 0 ≤ pc ∧ pc < prog.length) ∧
      (s.pc.toNat < prog.length → (s.pc.toNat : Int) = pc ∧
        ∃ insn v, prog[s.pc.toNat]? = some insn ∧ decodeInsn insn = some v)
  /-- The run is a run of the integer machine, step by step. -/
  int_pc : ∃ vprog, Decodes prog vprog ∧ ∀ n,
    Machine.Match (Corresponds prog.length) (fun r r' => r = r'.toEval)
      ((mdioNlEval prog bus host).run n (.entry h₀ b₀)) ((vm vprog bus host).run n (.entry h₀ b₀))
  /-- A taken jump continues at the integer target, or ends the run with 0. -/
  jump_ok : ∀ s s' insn off, (mdioNlEval prog bus host).Reaches (.entry h₀ b₀) s →
    prog[s.pc.toNat]? = some insn → takenJump insn s.regs = some off →
    (mdioNlEval prog bus host).step s = .inl s' →
    (0 ≤ (s.pc.toNat : Int) + off.toInt + 1 ∧ (s.pc.toNat : Int) + off.toInt + 1 < prog.length →
      (s'.pc.toNat : Int) = (s.pc.toNat : Int) + off.toInt + 1) ∧
    (¬(0 ≤ (s.pc.toNat : Int) + off.toInt + 1 ∧
        (s.pc.toNat : Int) + off.toInt + 1 < prog.length) →
      (mdioNlEval prog bus host).step s' = .inr (.returned .progEnd 0 s'.host s'.bus))
  /-- The status is 0, `-ETIMEDOUT`, or that of the call that failed. -/
  status_ok : ∀ s why ret h b, (mdioNlEval prog bus host).Reaches (.entry h₀ b₀) s →
    (mdioNlEval prog bus host).step s = .inr (.returned why ret h b) →
    StatusOk prog bus host s why ret

/-! ## Reached states -/

section

variable {prog : List MdioNlInsn} {vprog : List VmInsn} {bus : MiiBus β} {host : Host π}

/-- Every reached interpreter state stands for a reached machine state. -/
theorem reaches_corresponds (hdec : Decodes prog vprog) (hlen : prog.length ≤ 512) {h₀ : π}
    {b₀ : β} {s : EvalState π β} (h : (mdioNlEval prog bus host).Reaches (.entry h₀ b₀) s) :
    ∃ t, (vm vprog bus host).Reaches (.entry h₀ b₀) t ∧ Corresponds prog.length s t := by
  obtain ⟨n, hn⟩ := h
  have hmatch := mdioNlEval_refines hdec hlen bus host (entry_corresponds prog.length h₀ b₀) n
  rw [hn] at hmatch
  obtain ⟨t, ht, hst⟩ := hmatch.of_inl
  exact ⟨t, ⟨n, ht⟩, hst⟩

/-- The unsigned loop test decides whether the integer is inside the program. -/
theorem Corresponds.lt_iff (hlen : prog.length ≤ 512) {s : EvalState π β} {t : VmState π β}
    (hst : Corresponds prog.length s t) :
    s.pc.toNat < prog.length ↔ 0 ≤ t.pc ∧ t.pc < prog.length := by
  obtain ⟨rfl, hge, hle⟩ := hst
  exact toNat_ofInt_lt_iff hlen hge hle

/-- Inside the program, the two machines are at the same instruction. -/
theorem Corresponds.fetch (hdec : Decodes prog vprog) (hlen : prog.length ≤ 512)
    {s : EvalState π β} {t : VmState π β} (hst : Corresponds prog.length s t)
    (hlt : s.pc.toNat < prog.length) :
    (s.pc.toNat : Int) = t.pc ∧ ∃ insn v, prog[s.pc.toNat]? = some insn ∧
      decodeInsn insn = some v ∧ fetch vprog t.pc = some v := by
  obtain ⟨rfl, hge, hle⟩ := hst
  obtain ⟨hnonneg, hub⟩ := (toNat_ofInt_lt_iff hlen hge hle).mp hlt
  have hidx : t.toEval.pc.toNat = t.pc.toNat := toNat_ofInt_of_nonneg hnonneg (by omega)
  have hvlt : t.pc.toNat < vprog.length := by
    rw [hdec.length_eq]
    omega
  have hget := hdec.getElem? t.pc.toNat
  rw [List.getElem?_eq_getElem hvlt, List.getElem?_eq_getElem (by omega)] at hget
  refine ⟨by omega, prog[t.toEval.pc.toNat], vprog[t.pc.toNat], List.getElem?_eq_getElem hlt,
    by simpa [hidx] using hget, ?_⟩
  simp [Library.fetch, hnonneg, hvlt]

/-- An instruction that ends the run ends it with the value of its own call. -/
theorem VmInsn.exec_status {v : VmInsn} {d : VmData π β} {r : VmResult π β}
    (h : v.exec bus host d = .inr r) :
    (r.why = .access ∨ r.why = .emit) ∧ r.status < 0 ∧
      callResult bus host d v = some r.status := by
  cases v with
  | alu op a b dst => simp [VmInsn.exec] at h
  | jump onEq a b off => simp [VmInsn.exec] at h
  | read dev reg dst =>
      simp only [VmInsn.exec] at h
      split at h
      · cases h
        exact ⟨Or.inl rfl, by assumption, rfl⟩
      · cases h
  | write dev reg val =>
      simp only [VmInsn.exec] at h
      split at h
      · cases h
        exact ⟨Or.inl rfl, by assumption, rfl⟩
      · cases h
  | emit a =>
      simp only [VmInsn.exec] at h
      split at h
      · cases h
        exact ⟨Or.inr rfl, by assumption, rfl⟩
      · cases h

/-- A machine step that stops has the status the specification names. -/
theorem vmStep_status {t : VmState π β} {r : VmResult π β}
    (h : codeStep (vmSem bus host) vprog t = .inr r) :
    (r.why = .done ∧ r.status = 0) ∨ (r.why = .late ∧ r.status = -etimedout) ∨
      ((r.why = .access ∨ r.why = .emit) ∧ r.status < 0 ∧ ∃ v, fetch vprog t.pc = some v ∧
        callResult bus host { t.data with host := (host.expired t.data.host).2 } v
          = some r.status) := by
  unfold codeStep at h
  cases hfetch : fetch vprog t.pc with
  | none =>
      simp only [hfetch, Sum.inr.injEq] at h
      subst h
      exact Or.inl ⟨rfl, rfl⟩
  | some v =>
      simp only [hfetch] at h
      split at h
      · cases h
      · rename_i r' hexec
        cases h
        simp only [vmSem] at hexec
        split at hexec
        · cases hexec
          exact Or.inr (Or.inl ⟨rfl, rfl⟩)
        · obtain ⟨hwhy, hneg, hcall⟩ := VmInsn.exec_status hexec
          exact Or.inr (Or.inr ⟨hwhy, hneg, v, rfl, hcall⟩)

/-- The taken jumps of a decoded instruction. -/
theorem takenJump_of_decode {insn : MdioNlInsn} {v : VmInsn} (h : decodeInsn insn = some v)
    {regs : Regs} {off : BitVec 16} (hjump : takenJump insn regs = some off) :
    ∃ onEq a b, v = .jump onEq a b off ∧ decide (a.eval regs = b.eval regs) = onEq := by
  unfold takenJump at hjump
  unfold decodeInsn at h
  split at hjump
  · rename_i hop
    simp only [hop, decodeJump, Option.bind_eq_bind, Option.bind_eq_some_iff,
      Option.some.injEq] at h
    obtain ⟨a, ha, b, hb, off', hoff, rfl⟩ := h
    simp only [argRi_eq_of_decodeRi ha, argRi_eq_of_decodeRi hb, hoff, Option.bind_eq_bind,
      Option.bind_some] at hjump
    split at hjump <;> simp_all
  · rename_i hop
    simp only [hop, decodeJump, Option.bind_eq_bind, Option.bind_eq_some_iff,
      Option.some.injEq] at h
    obtain ⟨a, ha, b, hb, off', hoff, rfl⟩ := h
    simp only [argRi_eq_of_decodeRi ha, argRi_eq_of_decodeRi hb, hoff, Option.bind_eq_bind,
      Option.bind_some] at hjump
    split at hjump <;> simp_all
  · cases hjump

/-- Outside the program the interpreter leaves the loop with status 0. -/
theorem Corresponds.stop (hlen : prog.length ≤ 512) {s : EvalState π β} {t : VmState π β}
    (hst : Corresponds prog.length s t) (hout : ¬(0 ≤ t.pc ∧ t.pc < prog.length)) :
    evalStep prog bus host s = .inr (.returned .progEnd 0 s.host s.bus) := by
  obtain ⟨rfl, hge, hle⟩ := hst
  have hnlt : ¬t.toEval.pc.toNat < prog.length := fun h =>
    hout ((toNat_ofInt_lt_iff hlen hge hle).mp h)
  unfold evalStep
  rw [dif_neg hnlt]
  rfl

/-- A step over a taken jump lands on the integer target. -/
theorem vmStep_jump {t t' : VmState π β} {onEq : Bool} {a b : Operand} {off : BitVec 16}
    (hfetch : fetch vprog t.pc = some (.jump onEq a b off))
    (htaken : decide (a.eval t.data.regs = b.eval t.data.regs) = onEq)
    (hstep : codeStep (vmSem bus host) vprog t = .inl t') : t'.pc = t.pc + (off.toInt + 1) := by
  unfold codeStep at hstep
  simp only [hfetch, vmSem, VmInsn.exec, htaken, if_true] at hstep
  split at hstep
  · rename_i hexec
    split at hexec
    · cases hexec
    · cases hexec
      cases hstep
      rfl
  · cases hstep

/-! ## Steps of an accepted program -/

/-- A program that decodes ends with a status of the machine. -/
theorem mdioNlEval_returns (hdec : Decodes prog vprog) (hlen : prog.length ≤ 512) {h₀ : π}
    {b₀ : β} {r : EvalResult π β} (h : (mdioNlEval prog bus host).Halts (.entry h₀ b₀) r) :
    ∃ why ret h b, r = .returned why ret h b ∧ why ≠ .illegal := by
  obtain ⟨n, hn⟩ := h
  have hmatch := mdioNlEval_refines hdec hlen bus host (entry_corresponds prog.length h₀ b₀) n
  rw [hn] at hmatch
  obtain ⟨r', -, hr⟩ := hmatch.of_inr
  refine ⟨r'.why.toExit, r'.status, r'.host, r'.bus, hr, ?_⟩
  cases r'.why <;> simp [VmStop.toExit]

/-- A step over a taken jump: the interpreter goes on at the integer target, or
leaves the loop there. -/
theorem evalStep_jump (hdec : Decodes prog vprog) (hlen : prog.length ≤ 512)
    {s s' : EvalState π β} {t : VmState π β} (hst : Corresponds prog.length s t)
    {insn : MdioNlInsn} {off : BitVec 16} (hinsn : prog[s.pc.toNat]? = some insn)
    (hjump : takenJump insn s.regs = some off) (hstep : evalStep prog bus host s = .inl s') :
    (0 ≤ (s.pc.toNat : Int) + off.toInt + 1 ∧ (s.pc.toNat : Int) + off.toInt + 1 < prog.length →
      (s'.pc.toNat : Int) = (s.pc.toNat : Int) + off.toInt + 1) ∧
    (¬(0 ≤ (s.pc.toNat : Int) + off.toInt + 1 ∧
        (s.pc.toNat : Int) + off.toInt + 1 < prog.length) →
      evalStep prog bus host s' = .inr (.returned .progEnd 0 s'.host s'.bus)) := by
  have hlt : s.pc.toNat < prog.length := by
    by_contra hge
    rw [List.getElem?_eq_none (by omega)] at hinsn
    cases hinsn
  obtain ⟨hidx, insn', v, hinsn', hv, hfetch⟩ := hst.fetch hdec hlen hlt
  have hsame : insn' = insn := Option.some.inj (hinsn'.symm.trans hinsn)
  rw [hsame] at hv
  obtain ⟨onEq, a, b, rfl, htaken⟩ := takenJump_of_decode hv hjump
  have hregs : s.regs = t.data.regs := by rw [hst.1]; rfl
  rw [hregs] at htaken
  have hmatch := evalStep_matches hdec hlen bus host s t hst
  rw [hstep] at hmatch
  obtain ⟨t', hvm, hst'⟩ := hmatch.of_inl
  have hpc' := vmStep_jump hfetch htaken hvm
  constructor
  · intro hin
    have hspc : s'.pc = BitVec.ofInt 32 t'.pc := by rw [hst'.1]; rfl
    rw [hspc, toNat_ofInt_of_nonneg (by omega) (by omega)]
    omega
  · intro hout
    exact hst'.stop hlen (by omega)

/-- A step that ends the run has the status the specification names. -/
theorem evalStep_status (hdec : Decodes prog vprog) (hlen : prog.length ≤ 512)
    {s : EvalState π β} {t : VmState π β} (hst : Corresponds prog.length s t) {why : EvalExit}
    {ret : Int} {h : π} {b : β}
    (hstep : evalStep prog bus host s = .inr (.returned why ret h b)) :
    StatusOk prog bus host s why ret := by
  have hmatch := evalStep_matches hdec hlen bus host s t hst
  rw [hstep] at hmatch
  obtain ⟨r, hvm, hr⟩ := hmatch.of_inr
  simp only [VmResult.toEval, EvalResult.returned.injEq] at hr
  obtain ⟨rfl, rfl, rfl, rfl⟩ := hr
  rcases vmStep_status hvm with ⟨hwhy, hstatus⟩ | ⟨hwhy, hstatus⟩ |
    ⟨hwhy, hneg, v, hfetch, hcall⟩
  · exact Or.inl ⟨by rw [hwhy]; rfl, hstatus⟩
  · exact Or.inr (Or.inl ⟨by rw [hwhy]; rfl, hstatus⟩)
  · refine Or.inr (Or.inr ⟨?_, hneg, ?_⟩)
    · rcases hwhy with hwhy | hwhy
      · exact Or.inl (by rw [hwhy]; rfl)
      · exact Or.inr (by rw [hwhy]; rfl)
    · -- an instruction was fetched, so the counter is inside the program
      have hin : 0 ≤ t.pc ∧ t.pc < prog.length := by
        by_contra hout
        rw [(fetch_eq_none_iff vprog t.pc).mpr (by rw [hdec.length_eq]; exact hout)] at hfetch
        cases hfetch
      obtain ⟨-, insn, v', hinsn, hv, hfetch'⟩ := hst.fetch hdec hlen ((hst.lt_iff hlen).mpr hin)
      have hsame : v' = v := Option.some.inj (hfetch'.symm.trans hfetch)
      have hdata : ({ t.data with host := (host.expired t.data.host).2 } : VmData π β) =
          ⟨s.regs, (host.expired s.host).2, s.bus⟩ := by rw [hst.1]; rfl
      rw [hdata] at hcall
      exact ⟨insn, v', hinsn, hv, hsame ▸ hcall⟩

end

/-! ## The safety theorem -/

/-- A program within the policy runs safely and with integer jumps, whatever
the bus answers, the clock reads and the emits return. -/
theorem mdioNlEval_safe (attr : ProgAttr) (hpol : mdioNlPolicyProg attr) (bus : MiiBus β)
    (host : Host π) (h₀ : π) (b₀ : β) : EvalSafe attr.insns bus host h₀ b₀ := by
  obtain ⟨vprog, hdec⟩ := exists_decodes_of_valid (mdioNlValidateProg_ok hpol.2)
  have hlen := hpol.length_le
  constructor
  case no_bug => exact fun r hr => mdioNlEval_returns hdec hlen hr
  case fetch_ok =>
    intro s hs
    obtain ⟨t, -, hst⟩ := reaches_corresponds hdec hlen hs
    have hpc : s.pc = BitVec.ofInt 32 t.pc := by rw [hst.1]; rfl
    refine ⟨t.pc, hpc, hst.lt_iff hlen, ?_⟩
    intro hlt
    obtain ⟨hidx, insn, v, hinsn, hv, -⟩ := hst.fetch hdec hlen hlt
    exact ⟨hidx, insn, v, hinsn, hv⟩
  case int_pc =>
    exact ⟨vprog, hdec,
      mdioNlEval_refines hdec hlen bus host (entry_corresponds attr.insns.length h₀ b₀)⟩
  case jump_ok =>
    intro s s' insn off hs hinsn hjump hstep
    obtain ⟨t, -, hst⟩ := reaches_corresponds hdec hlen hs
    exact evalStep_jump hdec hlen hst hinsn hjump hstep
  case status_ok =>
    intro s why ret h b hs hstep
    obtain ⟨t, -, hst⟩ := reaches_corresponds hdec hlen hs
    exact evalStep_status hdec hlen hst hstep

/-- The hypothesis is met by a program of one jump far out of the program. -/
theorem mdioNlEval_safe_jump_out :
    EvalSafe [insn .jeq (immArg 7) (immArg 7) (immArg (-5))]
      (⟨fun _ _ b => (b, b), fun _ _ _ b => (-5, b)⟩ : MiiBus Int)
      (⟨fun k => (false, k), fun _ k => (0, k)⟩ : Host Nat) 0 3 :=
  mdioNlEval_safe ⟨8, [insn .jeq (immArg 7) (immArg 7) (immArg (-5))], rfl⟩
    ⟨by decide, rfl⟩ _ _ _ _

end MdioTools.Kernel
