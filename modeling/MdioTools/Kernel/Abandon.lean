import MdioTools.Kernel.Fragment

/-!
# Abandoned runs

A transaction that fails, a word that cannot be emitted or a deadline that has
passed ends a run at once: the interpreter has no way to run the rest of the
program, or any other instruction, after that.  So an abandoned run has done what
a run without failures has done up to some point, and nothing behind it.

Main results:

- Definitions {lit}`MayFail` and {lit}`failAt`: a bus whose transactions may
  fail, and one of which a given one does.
- Theorem {lit}`Runs.abandons`: on such a bus, and for any host, a run ends in a
  bus state of the run without failures.
- Theorem {lit}`mdioNlEval_bus`: what every transaction does to the bus holds
  along a run.
-/

namespace MdioTools.Kernel

open Library

variable {β γ ρ : Type} {dev : Device β} {bus : MiiBus γ} {proj : γ → β}

/-- A bus on which a transaction either fails and leaves the device alone, or is
that of the device. -/
structure MayFail (dev : Device β) (bus : MiiBus γ) (proj : γ → β) : Prop where
  read : ∀ t reg c, ((bus.read t reg c).1 < 0 ∧ proj (bus.read t reg c).2 = proj c) ∨
    ((bus.read t reg c).1 = ((dev.read t reg (proj c)).1.toNat : Int) ∧
      proj (bus.read t reg c).2 = (dev.read t reg (proj c)).2)
  write : ∀ t reg val c, ((bus.write t reg val c).1 < 0 ∧ proj (bus.write t reg val c).2 = proj c) ∨
    (¬(bus.write t reg val c).1 < 0 ∧
      proj (bus.write t reg val c).2 = dev.write t reg val (proj c))

/-- A bus on which one transaction fails with `-EIO`: the `k`th, counted from 1. -/
def failAt (dev : Device β) : MiiBus (Nat × β) where
  read t reg c := if c.1 = 1 then (-5, (0, c.2))
    else (((dev.read t reg c.2).1.toNat : Int), (c.1 - 1, (dev.read t reg c.2).2))
  write t reg val c := if c.1 = 1 then (-5, (0, c.2))
    else (0, (c.1 - 1, dev.write t reg val c.2))

theorem failAt_mayFail (dev : Device β) : MayFail dev (failAt dev) Prod.snd where
  read t reg c := by
    by_cases hnow : c.1 = 1
    · exact .inl (by simp [failAt, hnow])
    · exact .inr (by simp [failAt, hnow])
  write t reg val c := by
    by_cases hnow : c.1 = 1
    · exact .inl (by simp [failAt, hnow])
    · exact .inr (by simp [failAt, hnow])

/-- A state of a run that may fail, and the state of the run without failures
that it has come to. -/
structure EvalState.Follows (proj : γ → β) (f : EvalState ρ γ) (s : EvalState Words β) : Prop where
  pc : f.pc = s.pc
  regs : f.regs = s.regs
  bus : proj f.bus = s.bus

theorem Decodes.exists_decode {prog : List MdioNlInsn} {vprog : List VmInsn}
    (h : Decodes prog vprog) {i : MdioNlInsn} (hi : i ∈ prog) : ∃ v, decodeInsn i = some v := by
  have hmem : decodeInsn i ∈ vprog.map some := by
    rw [← show prog.map decodeInsn = vprog.map some from h]
    exact List.mem_map_of_mem hi
  obtain ⟨v, -, hv⟩ := List.mem_map.mp hmem
  exact ⟨v, hv.symm⟩

/-- An instruction either ends the run, with the device as it was, or does what
it does without failures. -/
theorem evalInsn_follows (hbus : MayFail dev bus proj) {host : Host ρ} {insn : MdioNlInsn}
    {f : EvalState ρ γ} {s : EvalState Words β} (hf : f.Follows proj s)
    {r : EvalState ρ γ ⊕ EvalResult ρ γ} (h : evalInsn bus host insn f = some r) :
    match r with
    | .inl f' => ∃ s', evalInsn dev.bus quietHost insn s = some (.inl s') ∧ f'.Follows proj s'
    | .inr (.returned why _ _ c) => why ≠ .progEnd ∧ proj c = s.bus
    | .inr .bug => False := by
  obtain ⟨hpc, hregs, hb⟩ := hf
  cases evalInsn_cases h with
  | illegal hop => exact ⟨by decide, hb⟩
  | @readFailed t reg hop hdev hreg hneg =>
      rcases hbus.read (mdioTarget t) reg f.bus with ⟨-, hsame⟩ | ⟨hok, -⟩
      · exact ⟨by decide, hsame.trans hb⟩
      · omega
  | @writeFailed t reg val hop hdev hreg hval hneg =>
      rcases hbus.write (mdioTarget t) reg val f.bus with ⟨-, hsame⟩ | ⟨hok, -⟩
      · exact ⟨by decide, hsame.trans hb⟩
      · exact absurd hneg hok
  | emitFailed hop ha hneg => exact ⟨by decide, hb⟩
  | @read t reg dst hop hdev hreg hdst hok =>
      rcases hbus.read (mdioTarget t) reg f.bus with ⟨hneg, -⟩ | ⟨hval, hdo⟩
      · exact absurd hneg hok
      · rw [hregs] at hdev hreg
        rw [hb] at hval hdo
        refine ⟨EvalState.store
          { s with ret := 0, bus := (dev.read (mdioTarget t) reg s.bus).2 } dst
          (dev.read (mdioTarget t) reg s.bus).1, ?_, ?_⟩
        · have hnonneg : ¬(((dev.read (mdioTarget t) reg s.bus).1.toNat : Int) < 0) := by omega
          simp [evalInsn, hop, hdev, hreg, hdst, Device.bus, hnonneg]
        · refine ⟨?_, ?_, hdo⟩
          · simp only [EvalState.store, hpc]
          · simp only [EvalState.store, hregs, hval, BitVec.ofInt_natCast, BitVec.ofNat_toNat,
              BitVec.setWidth_eq]
  | @write t reg val hop hdev hreg hval hok =>
      rcases hbus.write (mdioTarget t) reg val f.bus with ⟨hneg, -⟩ | ⟨-, hdo⟩
      · exact absurd hneg hok
      · rw [hregs] at hdev hreg hval
        rw [hb] at hdo
        refine ⟨EvalState.next { s with ret := 0, bus := dev.write (mdioTarget t) reg val s.bus },
          ?_, ?_, hregs, hdo⟩
        · simp [evalInsn, hop, hdev, hreg, hval, Device.bus]
        · simp only [EvalState.next, hpc]
  | @alu a b v dst hop ha hb' hdst =>
      rw [hregs] at ha hb'
      refine ⟨s.store dst v, ?_, ?_, ?_, hb⟩
      · rcases hop with ⟨hop, rfl⟩ | ⟨hop, rfl⟩ | ⟨hop, rfl⟩ <;>
          simp [evalInsn, hop, ha, hb', hdst]
      · simp only [EvalState.store, hpc]
      · simp only [EvalState.store, hregs]
  | @jump a b off hop ha hb' hoff =>
      rw [hregs] at ha hb'
      refine ⟨s.jump off, ?_, ?_, hregs, hb⟩
      · rcases hop with ⟨hop, htaken⟩ | ⟨hop, htaken⟩ <;>
          simp [evalInsn, hop, ha, hb', hoff, htaken]
      · simp only [EvalState.jump, hpc]
  | @stay a b hop ha hb' =>
      rw [hregs] at ha hb'
      refine ⟨s.next, ?_, ?_, hregs, hb⟩
      · rcases hop with ⟨hop, hstay⟩ | ⟨hop, hstay⟩ <;>
          simp [evalInsn, hop, ha, hb', hstay]
      · simp only [EvalState.next, hpc]
  | @emit a hop ha hok =>
      rw [hregs] at ha
      refine ⟨EvalState.next { s with ret := 0, host := s.host ++ [a.setWidth 32] }, ?_, ?_, hregs,
        hb⟩
      · simp [evalInsn, hop, ha, quietHost]
      · simp only [EvalState.next, hpc]

/-- So does an iteration of the loop, and it ends the program where the run
without failures ends. -/
theorem evalStep_follows (hbus : MayFail dev bus proj) (host : Host ρ) {prog : List MdioNlInsn}
    {vprog : List VmInsn} (hdec : Decodes prog vprog) {f : EvalState ρ γ}
    {s : EvalState Words β} (hf : f.Follows proj s) :
    match evalStep prog bus host f with
    | .inl f' => ∃ s', evalStep prog dev.bus quietHost s = .inl s' ∧ f'.Follows proj s'
    | .inr (.returned why _ _ c) => proj c = s.bus ∧ (why = .progEnd →
        evalStep prog dev.bus quietHost s = .inr (.returned .progEnd s.ret s.host s.bus))
    | .inr .bug => False := by
  by_cases hpc : f.pc.toNat < prog.length
  · have hpc' : s.pc.toNat < prog.length := hf.pc ▸ hpc
    by_cases hlate : (host.expired f.host).1 = true
    · rw [evalStep_late hpc hlate]
      exact ⟨hf.bus, fun h => by cases h⟩
    · rw [evalStep_insn hpc hlate]
      obtain ⟨v, hdecode⟩ := hdec.exists_decode (List.getElem_mem hpc)
      obtain ⟨r, hr⟩ := Option.isSome_iff_exists.mp
        (evalInsn_isSome_of_decode hdecode bus host { f with host := (host.expired f.host).2 })
      have hinsn := evalInsn_follows hbus (f := { f with host := (host.expired f.host).2 })
        (s := s) ⟨hf.pc, hf.regs, hf.bus⟩ hr
      rw [hr, Option.getD_some]
      cases r with
      | inl f' =>
          obtain ⟨s', hs', hf'⟩ := hinsn
          have hsame : prog[f.pc.toNat] = prog[s.pc.toNat] := by simp only [hf.pc]
          rw [hsame] at hs'
          refine ⟨s', ?_, hf'⟩
          rw [evalStep_insn hpc' (by simp [quietHost])]
          exact congrArg (Option.getD · _) hs'
      | inr res =>
          cases res with
          | returned why ret h c => exact ⟨hinsn.2, fun h => absurd h hinsn.1⟩
          | bug => exact hinsn
  · have hpc' : ¬s.pc.toNat < prog.length := hf.pc ▸ hpc
    rw [evalStep_end hpc]
    exact ⟨hf.bus, fun _ => evalStep_end hpc'⟩

/-- A run that may fail ends, in a bus state of the run without failures. -/
theorem mdioNlEval_follows (hbus : MayFail dev bus proj) (host : Host ρ) {prog : List MdioNlInsn}
    {vprog : List VmInsn} (hdec : Decodes prog vprog) {n : Nat} {f : EvalState ρ γ}
    {s : EvalState Words β} (hf : f.Follows proj s) {r : EvalResult Words β}
    (hrun : (mdioNlEval prog dev.bus quietHost).run n s = .inr r) :
    ∃ why ret h' c, (mdioNlEval prog bus host).Halts f (.returned why ret h' c) ∧
      (∃ t, (mdioNlEval prog dev.bus quietHost).Reaches s t ∧ t.bus = proj c) ∧
      (why = .progEnd → ∃ ret' words, r = .returned .progEnd ret' words (proj c)) := by
  induction n generalizing f s with
  | zero => cases hrun
  | succ n ih =>
      have hstep := evalStep_follows hbus host hdec hf
      cases hnext : evalStep prog bus host f with
      | inl f' =>
          rw [hnext] at hstep
          obtain ⟨s', hs', hf'⟩ := hstep
          rw [Machine.run_succ_of_step
            (show (mdioNlEval prog dev.bus quietHost).step s = .inl s' from hs')] at hrun
          obtain ⟨why, ret, h', c, hhalts, ⟨t, hreach, ht⟩, hend⟩ := ih hf' hrun
          exact ⟨why, ret, h', c, (Machine.Reaches.single hnext).halts hhalts,
            ⟨t, (Machine.Reaches.single hs').trans hreach, ht⟩, hend⟩
      | inr res =>
          rw [hnext] at hstep
          match res, hstep with
          | .returned why ret h' c, ⟨hsame, hend⟩ =>
              refine ⟨why, ret, h', c, Machine.Halts.single hnext, ⟨s, Machine.Reaches.refl s,
                hsame.symm⟩, fun hwhy => ?_⟩
              rw [Machine.run_succ_of_halt (show (mdioNlEval prog dev.bus quietHost).step s = _
                from hend hwhy)] at hrun
              exact ⟨s.ret, s.host, by rw [hsame]; exact (Sum.inr.inj hrun).symm⟩

/-- A fragment as a whole program, on a bus that may fail and for any host: the
run ends, in a bus state of the run without failures, and in its last one if it
gets to the end of the program. -/
theorem Runs.abandons {prog : List MdioNlInsn} {words : Words} {d' : VmData Words β} {c : γ}
    (hbus : MayFail dev bus proj) (host : Host ρ) (h : ρ)
    (hruns : Runs dev prog ⟨fun _ => 0, words, proj c⟩ d') (hlen : prog.length ≤ 512) :
    ∃ why ret h' c', (mdioNlEval prog bus host).Halts (.entry h c) (.returned why ret h' c') ∧
      (∃ t, (mdioNlEval prog dev.bus quietHost).Reaches (.entry words (proj c)) t ∧
        t.bus = proj c') ∧
      (why = .progEnd → proj c' = d'.bus) := by
  obtain ⟨n, hn⟩ := hruns.halts hlen
  obtain ⟨vprog, hdec, -⟩ := hruns
  obtain ⟨why, ret, h', c', hhalts, hreach, hend⟩ := mdioNlEval_follows hbus host hdec
    (f := .entry h c) (s := .entry words (proj c)) ⟨rfl, rfl, rfl⟩ hn
  refine ⟨why, ret, h', c', hhalts, hreach, fun hwhy => ?_⟩
  obtain ⟨ret', words', heq⟩ := hend hwhy
  simp only [EvalResult.returned.injEq] at heq
  exact heq.2.2.2.symm

/-! ## The bus along a run -/

/-- What every transaction does to the bus holds along a run, and of its end. -/
theorem mdioNlEval_bus (dev : Device β) {Q : β → β → Prop} (hrefl : ∀ b, Q b b)
    (htrans : ∀ {a b c}, Q a b → Q b c → Q a c)
    (hread : ∀ t reg b, Q b (dev.read t reg b).2)
    (hwrite : ∀ t reg val b, Q b (dev.write t reg val b)) (prog : List MdioNlInsn)
    (s : EvalState Words β) :
    (∀ t, (mdioNlEval prog dev.bus quietHost).Reaches s t → Q s.bus t.bus) ∧
      ∀ why ret words b, (mdioNlEval prog dev.bus quietHost).Halts s
        (.returned why ret words b) → Q s.bus b := by
  let J : EvalResult Words β → Prop := fun r =>
    match r with
    | .returned _ _ _ b => Q s.bus b
    | .bug => True
  have hstep : ∀ t, Q s.bus t.bus →
      (evalStep prog dev.bus quietHost t).elim (fun t' => Q s.bus t'.bus) J := by
    intro t ht
    by_cases hpc : t.pc.toNat < prog.length
    · rw [evalStep_insn hpc (by simp [quietHost])]
      generalize hinsn : evalInsn dev.bus quietHost _ _ = o
      cases o with
      | none => trivial
      | some r =>
          rw [Option.getD_some]
          cases evalInsn_cases hinsn with
          | read | readFailed => exact htrans ht (hread _ _ _)
          | write | writeFailed => exact htrans ht (hwrite _ _ _ _)
          | illegal | alu | jump | stay | emit | emitFailed => exact ht
    · rw [evalStep_end hpc]
      exact ht
  have hrun := Machine.run_induct (m := mdioNlEval prog dev.bus quietHost)
    (I := fun t => Q s.bus t.bus) (Q := J)
    (fun t t' ht heq => by
      have hnext := hstep t ht
      rw [show evalStep prog dev.bus quietHost t = .inl t' from heq] at hnext
      exact hnext)
    (fun t r ht heq => by
      have hnext := hstep t ht
      rw [show evalStep prog dev.bus quietHost t = .inr r from heq] at hnext
      exact hnext) (hrefl s.bus)
  constructor
  · rintro t ⟨n, hn⟩
    exact (hrun n).1 t hn
  · rintro why ret words b ⟨n, hn⟩
    exact (hrun n).2 _ hn

end MdioTools.Kernel
