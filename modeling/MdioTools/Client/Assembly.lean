import MdioTools.Client.Main
import MdioTools.Kernel.Refinement
import MdioTools.Kernel.Validate

/-!
# How programs are put together

The functions of the drivers push instructions behind whatever is already there.
Each of them pushes a whole number of building blocks: an instruction that does
not jump, one behind a jump over it, or a block with a jump back.  Programs made of
such blocks pass the checks of the kernel wherever the blocks stand.  Four functions
use {lit}`GOTO`: they keep the length that the program has at some time in a
variable, {lit}`retry` or {lit}`loop`, and jump back to it with their last
instruction.

Main results:

- Definition {lit}`GotoSite`: the jumps made with {lit}`GOTO`, each with the length
  that its function has kept for it.
- Theorem {lit}`GotoSite.lands`: every such jump leads to that index.
- Definition {lit}`Assembled`: programs made of blocks.
- Theorem {lit}`Assembled.closed`: the instructions of such a program are valid,
  and its jumps stay inside.
- Theorem {lit}`Assembled.backward`: its jumps back are made with {lit}`GOTO`.
- Theorem {lit}`CommonProg.assembled`: the common operations assemble their programs
  from what the hooks of a driver push.
-/

namespace MdioTools.Client

open Kernel Library

/-! ## Jumps -/

/-- Whether an instruction is a jump. -/
def isJump (i : MdioNlInsn) : Bool :=
  i.op = MdioNlOp.jeq.code ∨ i.op = MdioNlOp.jne.code

/-- The displacement of a jump. -/
def jumpOffset (i : MdioNlInsn) : Option (BitVec 16) :=
  if isJump i then argI i.arg2 else none

/-- The index of the instruction that the jump at index `k` leads to. -/
def jumpTarget (prog : MdioProg) (k : Nat) : Option Int :=
  (prog[k]?.bind jumpOffset).map fun off => (k : Int) + off.toInt + 1

/-! ## Blocks -/

/-- A valid instruction that does not jump. -/
structure Plain (i : MdioNlInsn) : Prop where
  valid : mdioNlValidateInsn i = .ok ()
  noJump : isJump i = false

/-- A valid jump over the next instruction. -/
structure Skip (i : MdioNlInsn) : Prop where
  valid : mdioNlValidateInsn i = .ok ()
  one : argI i.arg2 = some 1

/-- A valid jump from the end of a program back to an index. -/
structure Goto (prog : MdioProg) (loop : Nat) (i : MdioNlInsn) : Prop where
  valid : mdioNlValidateInsn i = .ok ()
  jump : isJump i = true
  arg2 : i.arg2 = (gotoArg prog.length loop).setWidth 18

/-- A function that pushes at most `n` instructions. -/
def Lengthens (n : Nat) (f : MdioProg → MdioProg) : Prop :=
  ∀ prog, prog <+: f prog ∧ (f prog).length ≤ prog.length + n

/-- The program of a benchmark in front of its loop: the expected value is written or
read, and the rounds are counted from 0. -/
def benchSetup (drv : MdioDriver) (reg : BitVec 32) (val : Option (BitVec 32)) : MdioProg :=
  let prog := match val with
    | some val => drv.write [insn .add (immArg val) (immArg 0) (regArg 7)] reg (regArg 7)
    | none => mdioProgPush (drv.read [] reg) (insn .add (regArg 0) (immArg 0) (regArg 7))
  mdioProgPush prog (insn .add (immArg 0) (immArg 0) (regArg 6))

/-- The program of the counter operation in front of its loop over the ports: the
switch is idle, and the first command is prepared. -/
def counterSetup (id : BitVec 16) (fam : MvlsFamliy) : MdioProg :=
  mdioProgPush (mvlsWait id [] (mvlsReg mvlsG1 0x1d))
    (insn .add (immArg (1 <<< 15 ||| 5 <<< 12 ||| (mvlsCounterBase fam).1)) (immArg 0) (regArg 1))

/-- In a program the instruction at an index is the jump that a function has made with
`GOTO`, and a length is what the function has kept for it: `retry` of `mvls_wait_cmd`
and `mvls_wait`, the length of the program that they are given, and `loop` of
`mdio_common_bench_exec` and `mvls_counter_exec`, the length in front of their loops.
The jump is the last instruction of its function. -/
inductive GotoSite : MdioProg → Nat → Nat → Prop
  | waitCmd (prog : MdioProg) (id : BitVec 8) (rest : MdioProg) :
      GotoSite (mvlsWaitCmd prog id ++ rest) ((mvlsWaitCmd prog id).length - 1) prog.length
  | wait (id : BitVec 16) (prog : MdioProg) (reg : BitVec 32) (rest : MdioProg) :
      GotoSite (mvlsWait id prog reg ++ rest) ((mvlsWait id prog reg).length - 1) prog.length
  | bench {drv : MdioDriver} {reg : BitVec 32} (hread : Lengthens 6 fun prog => drv.read prog reg)
      (val : Option (BitVec 32)) (rest : MdioProg) :
      GotoSite (mdioCommonBenchProg drv reg val ++ rest)
        ((mdioCommonBenchProg drv reg val).length - 1) (benchSetup drv reg val).length
  | counter (id : BitVec 16) (fam : MvlsFamliy) (rest : MdioProg) :
      GotoSite (mvlsCounterProg id fam ++ rest) ((mvlsCounterProg id fam).length - 1)
        (counterSetup id fam).length

/-- What is pushed behind leaves the jump where it is. -/
theorem GotoSite.append {prog : MdioProg} {k loop : Nat} (h : GotoSite prog k loop)
    (more : MdioProg) : GotoSite (prog ++ more) k loop := by
  cases h with
  | waitCmd prog id rest => simpa only [List.append_assoc] using .waitCmd prog id (rest ++ more)
  | wait id prog reg rest => simpa only [List.append_assoc] using .wait id prog reg (rest ++ more)
  | bench hread val rest => simpa only [List.append_assoc] using .bench hread val (rest ++ more)
  | counter id fam rest => simpa only [List.append_assoc] using .counter id fam (rest ++ more)

/-- The programs that are made by pushing blocks.  The jumps back are made with
`GOTO`, and none is longer than 16 bits can say. -/
inductive Assembled : MdioProg → Prop
  | nil : Assembled []
  | push {prog i} (h : Assembled prog) (hi : Plain i) : Assembled (mdioProgPush prog i)
  | skip {prog j i} (h : Assembled prog) (hj : Skip j) (hi : Plain i) :
      Assembled (mdioProgPush (mdioProgPush prog j) i)
  | goto {prog loop i} (h : Assembled prog) (hle : loop ≤ prog.length)
      (hnear : prog.length < loop + 2 ^ 15) (hi : Goto prog loop i)
      (hsite : GotoSite (mdioProgPush prog i) prog.length loop) : Assembled (mdioProgPush prog i)

/-- The instructions are valid, and jumps stay inside or lead to the end. -/
structure Closed (prog : MdioProg) : Prop where
  valid : ∀ i ∈ prog, mdioNlValidateInsn i = .ok ()
  jumps : ∀ k target, jumpTarget prog k = some target → 0 ≤ target ∧ target ≤ prog.length

/-! ### Pushing a block -/

/-- Only an instruction of the program has a jump target. -/
theorem jumpTarget_lt {prog : MdioProg} {k : Nat} {target : Int}
    (h : jumpTarget prog k = some target) : k < prog.length := by
  by_contra hge
  rw [jumpTarget, List.getElem?_eq_none (Nat.not_lt.mp hge)] at h
  cases h

/-- A push makes a program longer by one instruction. -/
@[simp]
theorem mdioProgPush_length (prog : MdioProg) (i : MdioNlInsn) :
    (mdioProgPush prog i).length = prog.length + 1 := by
  simp [mdioProgPush]

/-- A push leaves the jumps before it as they are. -/
theorem jumpTarget_push_of_lt {prog : MdioProg} {k : Nat} (h : k < prog.length) (i : MdioNlInsn) :
    jumpTarget (mdioProgPush prog i) k = jumpTarget prog k := by
  rw [jumpTarget, mdioProgPush, List.getElem?_append_left h]
  rfl

/-- What is behind the end of a program does not change its jumps. -/
theorem jumpTarget_append_of_lt {prog : MdioProg} {k : Nat} (h : k < prog.length)
    (rest : MdioProg) : jumpTarget (prog ++ rest) k = jumpTarget prog k := by
  rw [jumpTarget, List.getElem?_append_left h]
  rfl

/-- The target of the instruction that is pushed last. -/
theorem jumpTarget_push_self (prog : MdioProg) (i : MdioNlInsn) :
    jumpTarget (mdioProgPush prog i) prog.length =
      (jumpOffset i).map fun off => (prog.length : Int) + off.toInt + 1 := by
  rw [jumpTarget, mdioProgPush, List.getElem?_concat_length, Option.bind_some]

/-- The jumps of a program lead to indices up to `m`. -/
def JumpsWithin (prog : MdioProg) (m : Nat) : Prop :=
  ∀ k target, jumpTarget prog k = some target → 0 ≤ target ∧ target ≤ m

/-- Jumps that stay within a bound stay within a larger one. -/
theorem JumpsWithin.mono {prog : MdioProg} {m n : Nat} (h : JumpsWithin prog m) (hle : m ≤ n) :
    JumpsWithin prog n := by
  intro k target hk
  have hm := h k target hk
  omega

/-- A push keeps the bound on the jumps if the new instruction respects it. -/
theorem JumpsWithin.push {prog : MdioProg} {i : MdioNlInsn} {m : Nat} (h : JumpsWithin prog m)
    (hi : ∀ target, jumpTarget (mdioProgPush prog i) prog.length = some target →
      0 ≤ target ∧ target ≤ m) : JumpsWithin (mdioProgPush prog i) m := by
  intro k target hk
  have hlt := jumpTarget_lt hk
  rw [mdioProgPush_length] at hlt
  obtain hlt | rfl := Nat.lt_succ_iff_lt_or_eq.mp hlt
  · rw [jumpTarget_push_of_lt hlt] at hk
    exact h k target hk
  · exact hi target hk

/-- A plain instruction does not jump, wherever it is pushed. -/
theorem Plain.jumpTarget {i : MdioNlInsn} (hi : Plain i) (prog : MdioProg) :
    jumpTarget (mdioProgPush prog i) prog.length = none := by
  rw [jumpTarget_push_self, jumpOffset, hi.noJump]
  rfl

/-- A skip lands behind the next instruction. -/
theorem Skip.jumpTarget {j : MdioNlInsn} (hj : Skip j) {prog : MdioProg} {target : Int}
    (h : jumpTarget (mdioProgPush prog j) prog.length = some target) :
    target = prog.length + 2 := by
  rw [jumpTarget_push_self, jumpOffset] at h
  split_ifs at h
  · rw [hj.one, Option.map_some, Option.some.injEq] at h
    rw [← h]
    rfl
  · cases h

/-- A jump back to a recorded start leads to exactly that index. -/
theorem Goto.jumpTarget {prog : MdioProg} {loop : Nat} {i : MdioNlInsn} (hi : Goto prog loop i)
    (hle : loop ≤ prog.length) (hnear : prog.length < loop + 2 ^ 15) :
    jumpTarget (mdioProgPush prog i) prog.length = some (loop : Int) := by
  have hoff : (BitVec.ofInt 16 ((loop : Int) - prog.length - 1)).toInt = loop - prog.length - 1 := by
    rw [BitVec.toInt_ofInt_eq_self (by decide) (by omega) (by omega)]
  rw [jumpTarget_push_self, jumpOffset, hi.jump, if_pos rfl, hi.arg2, argI_gotoArg,
    Option.map_some, hoff]
  congr 1
  omega

/-! ### Assembled programs -/

/-- The instructions after a push are those before it and the new one. -/
theorem mem_mdioProgPush {prog : MdioProg} {i j : MdioNlInsn} :
    j ∈ mdioProgPush prog i ↔ j ∈ prog ∨ j = i := by
  rw [mdioProgPush, List.mem_append, List.mem_singleton]

/-- The instructions of an assembled program are valid, and its jumps stay
inside. -/
theorem Assembled.closed {prog : MdioProg} (h : Assembled prog) : Closed prog := by
  induction h with
  | nil => exact ⟨by simp, fun k target hk => absurd (jumpTarget_lt hk) (Nat.not_lt_zero k)⟩
  | push _ hi ih =>
      refine ⟨fun j hj => ?_, ?_⟩
      · obtain hj | rfl := mem_mdioProgPush.mp hj
        · exact ih.valid j hj
        · exact hi.valid
      · refine (JumpsWithin.mono ih.jumps (by simp)).push fun target ht => ?_
        rw [hi.jumpTarget] at ht
        cases ht
  | @skip prog j i _ hj hi ih =>
      refine ⟨fun j' hj' => ?_, ?_⟩
      · obtain hj' | rfl := mem_mdioProgPush.mp hj'
        · obtain hj' | rfl := mem_mdioProgPush.mp hj'
          · exact ih.valid j' hj'
          · exact hj.valid
        · exact hi.valid
      · refine ((JumpsWithin.mono ih.jumps (by simp; omega)).push fun target ht => ?_).push
          fun target ht => ?_
        · have htarget := hj.jumpTarget ht
          rw [mdioProgPush_length, mdioProgPush_length]
          omega
        · rw [hi.jumpTarget] at ht
          cases ht
  | @goto prog loop i h hle hnear hi hsite ih =>
      refine ⟨fun j hj => ?_, ?_⟩
      · obtain hj | rfl := mem_mdioProgPush.mp hj
        · exact ih.valid j hj
        · exact hi.valid
      · refine (JumpsWithin.mono ih.jumps (by simp)).push fun target ht => ?_
        rw [hi.jumpTarget hle hnear, Option.some.injEq] at ht
        rw [mdioProgPush_length]
        omega

/-- The jumps back of a program are made with `GOTO`, and lead to the index that has
been kept for them. -/
def JumpsBack (prog : MdioProg) : Prop :=
  ∀ k target, jumpTarget prog k = some target → target ≤ k →
    ∃ loop : Nat, target = loop ∧ GotoSite prog k loop

/-- One more instruction is looked at on its own. -/
theorem JumpsBack.push {prog : MdioProg} (h : JumpsBack prog) {i : MdioNlInsn}
    (hi : ∀ target, jumpTarget (mdioProgPush prog i) prog.length = some target →
      target ≤ prog.length → ∃ loop : Nat, target = loop ∧
        GotoSite (mdioProgPush prog i) prog.length loop) : JumpsBack (mdioProgPush prog i) := by
  intro k target hk hback
  have hlt := jumpTarget_lt hk
  rw [mdioProgPush_length] at hlt
  obtain hlt | rfl := Nat.lt_succ_iff_lt_or_eq.mp hlt
  · rw [jumpTarget_push_of_lt hlt] at hk
    obtain ⟨loop, htarget, hsite⟩ := h k target hk hback
    exact ⟨loop, htarget, hsite.append [i]⟩
  · exact hi target hk hback

/-- Those of an assembled program are so. -/
theorem Assembled.backward {prog : MdioProg} (h : Assembled prog) : JumpsBack prog := by
  induction h with
  | nil => exact fun k target hk => absurd (jumpTarget_lt hk) (Nat.not_lt_zero k)
  | push _ hi ih =>
      refine ih.push fun target ht => ?_
      rw [hi.jumpTarget] at ht
      cases ht
  | skip _ hj hi ih =>
      refine (ih.push fun target ht hback => ?_).push fun target ht => ?_
      · have htarget := hj.jumpTarget ht
        omega
      · rw [hi.jumpTarget] at ht
        cases ht
  | goto _ hle hnear hi hsite ih =>
      refine ih.push fun target ht _ => ⟨_, ?_, hsite⟩
      rw [hi.jumpTarget hle hnear, Option.some.injEq] at ht
      exact ht.symm

/-! ### Functions that push -/

/-- A function that pushes at most `n` instructions, in whole blocks. -/
structure Pushes (n : Nat) (f : MdioProg → MdioProg) : Prop where
  lengthens : Lengthens n f
  assembled : ∀ prog, Assembled prog → Assembled (f prog)

namespace Lengthens

variable {m n : Nat} {f g : MdioProg → MdioProg}

/-- The bound on how much a function pushes may be raised. -/
theorem mono (h : Lengthens m f) (hle : m ≤ n) : Lengthens n f := by
  intro prog
  obtain ⟨hfront, hlength⟩ := h prog
  exact ⟨hfront, by omega⟩

/-- What two functions push adds up. -/
theorem comp (hf : Lengthens m f) (hg : Lengthens n g) : Lengthens (m + n) fun prog => g (f prog) := by
  intro prog
  obtain ⟨hfront, hlength⟩ := hf prog
  obtain ⟨hfront', hlength'⟩ := hg (f prog)
  exact ⟨hfront.trans hfront', hlength'.trans (by omega)⟩

/-- One instruction, whatever it is. -/
theorem push (hf : Lengthens n f) (i : MdioProg → MdioNlInsn) :
    Lengthens (n + 1) fun prog => mdioProgPush (f prog) (i prog) := by
  intro prog
  obtain ⟨hfront, hlength⟩ := hf prog
  exact ⟨hfront.trans ⟨[i prog], rfl⟩, by simp; omega⟩

end Lengthens

namespace Pushes

variable {m n : Nat} {f g : MdioProg → MdioProg}

theorem mono (h : Pushes m f) (hle : m ≤ n) : Pushes n f :=
  ⟨h.lengthens.mono hle, h.assembled⟩

/-- A function that pushes nothing. -/
theorem id : Pushes 0 fun prog => prog :=
  ⟨fun prog => ⟨List.prefix_refl prog, le_refl _⟩, fun _ h => h⟩

theorem comp (hf : Pushes m f) (hg : Pushes n g) : Pushes (m + n) fun prog => g (f prog) :=
  ⟨hf.lengthens.comp hg.lengthens, fun prog h => hg.assembled _ (hf.assembled prog h)⟩

/-- A function that ends with a plain instruction. -/
theorem push (hf : Pushes n f) {i : MdioNlInsn} (hi : Plain i) :
    Pushes (n + 1) fun prog => mdioProgPush (f prog) i :=
  ⟨hf.lengthens.push fun _ => i, fun prog h => (hf.assembled prog h).push hi⟩

/-- A push of one plain instruction is a block of its own. -/
theorem plain {i : MdioNlInsn} (hi : Plain i) : Pushes 1 fun prog => mdioProgPush prog i :=
  Pushes.id.push hi

/-- A function that ends with a plain instruction behind a jump over it. -/
theorem pushSkip (hf : Pushes n f) {j i : MdioNlInsn} (hj : Skip j) (hi : Plain i) :
    Pushes (n + 2) fun prog => mdioProgPush (mdioProgPush (f prog) j) i :=
  ⟨(hf.lengthens.push fun _ => j).push fun _ => i, fun prog h => (hf.assembled prog h).skip hj hi⟩

/-- A loop that starts at some index of what has been assembled so far. -/
theorem close (hf : Pushes n f) (hn : n < 2 ^ 15) {setup : MdioProg} (h : Assembled setup)
    {i : MdioNlInsn} (hi : Goto (f setup) setup.length i)
    (hsite : GotoSite (mdioProgPush (f setup) i) ((mdioProgPush (f setup) i).length - 1)
      setup.length) : Assembled (mdioProgPush (f setup) i) := by
  obtain ⟨hfront, hlength⟩ := hf.lengthens setup
  rw [mdioProgPush_length, Nat.add_sub_cancel] at hsite
  exact (hf.assembled setup h).goto hfront.length_le (by omega) hi hsite

/-- A function that jumps back to where it has started. -/
theorem loop (hf : Pushes n f) (hn : n < 2 ^ 15) {i : MdioProg → MdioNlInsn}
    (hi : ∀ prog, Goto (f prog) prog.length (i prog))
    (hsite : ∀ prog, GotoSite (mdioProgPush (f prog) (i prog))
      ((mdioProgPush (f prog) (i prog)).length - 1) prog.length) :
    Pushes (n + 1) fun prog => mdioProgPush (f prog) (i prog) :=
  ⟨hf.lengthens.push i, fun prog h => hf.close hn h (hi prog) (hsite prog)⟩

/-- A function that is called for each element of a list. -/
theorem foldl {α : Type} {step : MdioProg → α → MdioProg} {l : List α}
    (h : ∀ a ∈ l, Pushes n fun prog => step prog a) :
    Pushes (n * l.length) fun prog => l.foldl step prog := by
  induction l with
  | nil => exact Pushes.id
  | cons a l ih =>
      have hrest := ih fun b hb => h b (List.mem_cons_of_mem _ hb)
      refine ((h a List.mem_cons_self).comp hrest).mono ?_
      rw [List.length_cons, Nat.mul_succ]
      omega

/-- What is pushed into an empty program. -/
theorem start (hf : Pushes n f) : Assembled (f []) :=
  hf.assembled [] .nil

end Pushes

/-! ## Instructions of the client -/

/-- Whether the kernel takes an operand as a value. -/
def IsRi (a : BitVec 32) : Prop :=
  argMode (a.setWidth 18) = .reg ∨ argMode (a.setWidth 18) = .imm

/-- `REG(r)` is a register or an immediate. -/
theorem isRi_regArg (r : BitVec 32) : IsRi (regArg r) :=
  Or.inl (argMode_argWord _ _)

/-- `IMM(n)` is a register or an immediate. -/
theorem isRi_immArg (n : BitVec 32) : IsRi (immArg n) :=
  Or.inr (argMode_argWord _ _)

/-- The kernel accepts an instruction whose operands have the modes of its
opcode. -/
theorem valid_insn {op : MdioNlOp} {a0 a1 a2 : BitVec 32}
    (h0 : protoAllows (mdioNlOpProtos op).arg0 (a0.setWidth 18))
    (h1 : protoAllows (mdioNlOpProtos op).arg1 (a1.setWidth 18))
    (h2 : protoAllows (mdioNlOpProtos op).arg2 (a2.setWidth 18)) :
    mdioNlValidateInsn (insn op a0 a1 a2) = .ok () :=
  (mdioNlValidateInsn_ok_iff _).mpr ⟨op, MdioNlOp.ofCode_code op, h0, h1, h2⟩

/-- The kernel admits such an operand where its table says `RI`. -/
theorem IsRi.allowed {a : BitVec 32} (h : IsRi a) : protoAllows protoRI (a.setWidth 18) :=
  (protoAllows_iff _).1.mpr h

/-- The kernel admits `REG(r)` where its table says `R`. -/
theorem allowed_regArg (r : BitVec 32) : protoAllows protoR ((regArg r).setWidth 18) :=
  (protoAllows_iff _).2.1.mpr (argMode_argWord _ _)

/-- A READ of the client is plain. -/
theorem plain_read {a b : BitVec 32} (ha : IsRi a) (hb : IsRi b) (r : BitVec 32) :
    Plain (insn .read a b (regArg r)) :=
  ⟨valid_insn ha.allowed hb.allowed (allowed_regArg r), rfl⟩

/-- A WRITE of the client is plain. -/
theorem plain_write {a b c : BitVec 32} (ha : IsRi a) (hb : IsRi b) (hc : IsRi c) :
    Plain (insn .write a b c) :=
  ⟨valid_insn ha.allowed hb.allowed hc.allowed, rfl⟩

/-- An AND of the client is plain. -/
theorem plain_and {a b : BitVec 32} (ha : IsRi a) (hb : IsRi b) (r : BitVec 32) :
    Plain (insn .and a b (regArg r)) :=
  ⟨valid_insn ha.allowed hb.allowed (allowed_regArg r), rfl⟩

/-- An OR of the client is plain. -/
theorem plain_or {a b : BitVec 32} (ha : IsRi a) (hb : IsRi b) (r : BitVec 32) :
    Plain (insn .or a b (regArg r)) :=
  ⟨valid_insn ha.allowed hb.allowed (allowed_regArg r), rfl⟩

/-- An ADD of the client is plain. -/
theorem plain_add {a b : BitVec 32} (ha : IsRi a) (hb : IsRi b) (r : BitVec 32) :
    Plain (insn .add a b (regArg r)) :=
  ⟨valid_insn ha.allowed hb.allowed (allowed_regArg r), rfl⟩

/-- An EMIT of the client is plain. -/
theorem plain_emit {a : BitVec 32} (ha : IsRi a) : Plain (insn .emit a 0 0) :=
  ⟨valid_insn ha.allowed (by decide) (by decide), rfl⟩

/-- The `JEQ(…, IMM(1))` of the client is a skip. -/
theorem skip_jeq {a b : BitVec 32} (ha : IsRi a) (hb : IsRi b) :
    Skip (insn .jeq a b (immArg 1)) :=
  ⟨valid_insn ha.allowed hb.allowed ((protoAllows_iff _).2.2.1.mpr (argMode_argWord _ _)),
    argI_immArg 1⟩

/-- `JEQ(…, GOTO(prog, loop))` jumps back to the recorded index. -/
theorem goto_jeq {a b : BitVec 32} (ha : IsRi a) (hb : IsRi b) (prog : MdioProg) (loop : Nat) :
    Goto prog loop (insn .jeq a b (gotoArg prog.length loop)) :=
  ⟨valid_insn ha.allowed hb.allowed ((protoAllows_iff _).2.2.1.mpr (argMode_argWord _ _)), rfl, rfl⟩

/-- `JNE(…, GOTO(prog, loop))` jumps back to the recorded index. -/
theorem goto_jne {a b : BitVec 32} (ha : IsRi a) (hb : IsRi b) (prog : MdioProg) (loop : Nat) :
    Goto prog loop (insn .jne a b (gotoArg prog.length loop)) :=
  ⟨valid_insn ha.allowed hb.allowed ((protoAllows_iff _).2.2.1.mpr (argMode_argWord _ _)), rfl, rfl⟩

/-! ## The drivers -/

section Drivers

variable (id : BitVec 16) (pdev : PphyDevice) (reg : BitVec 32)

/-- `phy_read` pushes one instruction. -/
theorem phyRead_pushes : Pushes 1 fun prog => phyRead id prog reg :=
  Pushes.plain (plain_read (isRi_immArg _) (isRi_immArg _) _)

/-- `phy_write` pushes one instruction. -/
theorem phyWrite_pushes {val : BitVec 32} (hval : IsRi val) :
    Pushes 1 fun prog => phyWrite id prog reg val :=
  Pushes.plain (plain_write (isRi_immArg _) (isRi_immArg _) hval)

/-- Three writes select the register of an MMD behind Clause 22. -/
theorem mmdC22Address_pushes : Pushes 3 fun prog => mmdC22Address id prog reg :=
  ((Pushes.plain (plain_write (isRi_immArg _) (isRi_immArg _) (isRi_immArg _))).push
    (plain_write (isRi_immArg _) (isRi_immArg _) (isRi_immArg _))).push
    (plain_write (isRi_immArg _) (isRi_immArg _) (isRi_immArg _))

theorem mmdC22Read_pushes : Pushes 4 fun prog => mmdC22Read id prog reg :=
  (mmdC22Address_pushes id reg).push (plain_read (isRi_immArg _) (isRi_immArg _) _)

theorem mmdC22Write_pushes {val : BitVec 32} (hval : IsRi val) :
    Pushes 4 fun prog => mmdC22Write id prog reg val :=
  (mmdC22Address_pushes id reg).push (plain_write (isRi_immArg _) (isRi_immArg _) hval)

/-- Entering a page saves the old one and skips the write if they agree. -/
theorem pphyEnter_pushes (page : BitVec 8) : Pushes 3 fun prog => pphyEnter pdev prog page :=
  (Pushes.plain (plain_read (isRi_immArg _) (isRi_immArg _) _)).pushSkip
    (skip_jeq (isRi_regArg _) (isRi_immArg _))
    (plain_write (isRi_immArg _) (isRi_immArg _) (isRi_immArg _))

/-- Leaving a page skips the write in the same way. -/
theorem pphyLeave_pushes (page : BitVec 8) : Pushes 2 fun prog => pphyLeave pdev prog page :=
  Pushes.id.pushSkip (skip_jeq (isRi_regArg _) (isRi_immArg _))
    (plain_write (isRi_immArg _) (isRi_immArg _) (isRi_regArg _))

/-- A paged read enters the page, reads and leaves it. -/
theorem pphyRead_pushes : Pushes 6 fun prog => pphyRead pdev prog reg :=
  ((pphyEnter_pushes pdev _).push (plain_read (isRi_immArg _) (isRi_immArg _) _)).comp
    (pphyLeave_pushes pdev _)

/-- A paged write enters the page, writes and leaves it. -/
theorem pphyWrite_pushes {val : BitVec 32} (hval : IsRi val) :
    Pushes 6 fun prog => pphyWrite pdev prog reg val :=
  ((pphyEnter_pushes pdev _).push (plain_write (isRi_immArg _) (isRi_immArg _) hval)).comp
    (pphyLeave_pushes pdev _)

theorem readEmit_pushes : Pushes 2 fun prog => prog ++ readEmit id reg := by
  have hpush := (Pushes.plain (plain_read (isRi_immArg (id.setWidth 32)) (isRi_immArg reg) 0)).push
    (plain_emit (isRi_regArg 0))
  simp only [mdioProgPush, List.append_assoc, List.cons_append, List.nil_append] at hpush
  exact hpush

/-- A dump of a paged PHY enters the page once. -/
theorem pphyDump_pushes {range : RegRange} {prog : MdioProg}
    (h : pphyDump pdev [] range = some prog) : Assembled prog := by
  unfold pphyDump at h
  obtain ⟨regs, -, rfl⟩ := Option.map_eq_some_iff.mp h
  exact (((pphyEnter_pushes pdev _).comp (Pushes.foldl fun r _ => readEmit_pushes pdev.id r)).comp
    (pphyLeave_pushes pdev _)).start

/-- The wait for a single-chip switch loops back to its own start. -/
theorem mvlsWaitCmd_pushes (id : BitVec 8) : Pushes 3 fun prog => mvlsWaitCmd prog id := by
  have hsite (prog : MdioProg) := GotoSite.waitCmd prog id []
  simp only [List.append_nil] at hsite
  exact ((Pushes.plain (plain_read (isRi_immArg _) (isRi_immArg _) _)).push
    (plain_and (isRi_regArg _) (isRi_immArg _) _)).loop (by decide)
    (fun _ => goto_jeq (isRi_regArg _) (isRi_immArg _) _ _) hsite

/-- A switch read is at most five instructions, in either addressing. -/
theorem mvlsReadTo_pushes (dst : BitVec 8) : Pushes 5 fun prog => mvlsReadTo id prog reg dst := by
  unfold mvlsReadTo
  by_cases hid : id = 0
  · simp only [if_pos hid]
    exact (Pushes.plain (plain_read (isRi_immArg _) (isRi_immArg _) _)).mono (by decide)
  · simp only [if_neg hid]
    exact ((Pushes.plain (plain_write (isRi_immArg _) (isRi_immArg _) (isRi_immArg _))).comp
      (mvlsWaitCmd_pushes _)).push (plain_read (isRi_immArg _) (isRi_immArg _) _)

/-- A switch write is at most five instructions, in either addressing. -/
theorem mvlsWrite_pushes {val : BitVec 32} (hval : IsRi val) :
    Pushes 5 fun prog => mvlsWrite id prog reg val := by
  unfold mvlsWrite
  by_cases hid : id = 0
  · simp only [if_pos hid]
    exact (Pushes.plain (plain_write (isRi_immArg _) (isRi_immArg _) hval)).mono (by decide)
  · simp only [if_neg hid]
    exact ((Pushes.plain (plain_write (isRi_immArg _) (isRi_immArg _) hval)).push
      (plain_write (isRi_immArg _) (isRi_immArg _) (isRi_immArg _))).comp (mvlsWaitCmd_pushes _)

/-- The wait for a busy bit loops back to the read before it. -/
theorem mvlsWait_pushes : Pushes 7 fun prog => mvlsWait id prog reg := by
  have hsite (prog : MdioProg) := GotoSite.wait id prog reg []
  simp only [List.append_nil] at hsite
  exact ((mvlsReadTo_pushes id reg 0).push (plain_and (isRi_regArg _) (isRi_immArg _) _)).loop
    (by decide) (fun _ => goto_jeq (isRi_regArg _) (isRi_immArg _) _ _) hsite

/-- `xrs_read` writes the two halves of the address and reads the data. -/
theorem xrsRead_pushes : Pushes 3 fun prog => xrsRead id prog reg :=
  ((Pushes.plain (plain_write (isRi_immArg _) (isRi_immArg _) (isRi_immArg _))).push
    (plain_write (isRi_immArg _) (isRi_immArg _) (isRi_immArg _))).push
    (plain_read (isRi_immArg _) (isRi_immArg _) _)

theorem xrsWrite_pushes (val : BitVec 32) : Pushes 3 fun prog => xrsWrite id prog reg val :=
  ((Pushes.plain (plain_write (isRi_immArg _) (isRi_immArg _) (isRi_immArg _))).push
    (plain_write (isRi_immArg _) (isRi_immArg _) (isRi_immArg _))).push
    (plain_write (isRi_immArg _) (isRi_immArg _) (isRi_immArg _))

end Drivers

/-- The hooks of a driver push at most six instructions, and its dump is
assembled. -/
structure DriverPushes (drv : MdioDriver) : Prop where
  read : ∀ reg, Pushes 6 fun prog => drv.read prog reg
  write : ∀ reg val, IsRi val → Pushes 6 fun prog => drv.write prog reg val
  dump : ∀ d range prog, drv.dump = some d → d [] range = some prog → Assembled prog

/-- The hooks of `phy` and `mmd` push blocks. -/
theorem phyDriver_pushes (id : BitVec 16) : DriverPushes (phyDriver id) where
  read reg := (phyRead_pushes id reg).mono (by decide)
  write reg _ hval := (phyWrite_pushes id reg hval).mono (by decide)
  dump _ _ _ h := nomatch h

/-- The hooks of `mmd-c22` push blocks. -/
theorem mmdC22Driver_pushes (id : BitVec 16) : DriverPushes (mmdC22Driver id) where
  read reg := (mmdC22Read_pushes id reg).mono (by decide)
  write reg _ hval := (mmdC22Write_pushes id reg hval).mono (by decide)
  dump _ _ _ h := nomatch h

/-- The hooks of the paged PHYs push blocks. -/
theorem pphyDriver_pushes (pdev : PphyDevice) : DriverPushes (pphyDriver pdev) where
  read reg := pphyRead_pushes pdev reg
  write reg _ hval := pphyWrite_pushes pdev reg hval
  dump d range prog hd h := by
    obtain rfl : pphyDump pdev = d := Option.some.inj hd
    exact pphyDump_pushes pdev h

/-- The hooks of `mvls` push blocks. -/
theorem mvlsDriver_pushes (id : BitVec 16) : DriverPushes (mvlsDriver id) where
  read reg := (mvlsReadTo_pushes id reg 0).mono (by decide)
  write reg _ hval := (mvlsWrite_pushes id reg hval).mono (by decide)
  dump _ _ _ h := nomatch h

/-- The hooks of `xrs` push blocks. -/
theorem xrsDriver_pushes (id : BitVec 16) : DriverPushes (xrsDriver id) where
  read reg := (xrsRead_pushes id reg).mono (by decide)
  write reg val _ := (xrsWrite_pushes id reg val).mono (by decide)
  dump _ _ _ h := nomatch h

/-! ## Whole programs -/

section Programs

variable {drv : MdioDriver} (h : DriverPushes drv) (id : BitVec 16) (reg : BitVec 32)
include h

/-- The program of `raw` is assembled, whatever it writes and masks. -/
theorem mdioCommonRawProg_assembled (write : Option (BitVec 32 × BitVec 32)) :
    Assembled (mdioCommonRawProg drv reg write) := by
  cases write with
  | none => exact ((h.read reg).push (plain_emit (isRi_regArg 0))).start
  | some w =>
      obtain ⟨val, mask⟩ := w
      unfold mdioCommonRawProg
      by_cases hmask : mask ≠ 0
      · simp only [if_pos hmask]
        exact ((((h.read reg).push (plain_and (isRi_regArg 0) (isRi_immArg mask) 0)).push
          (plain_or (isRi_regArg 0) (isRi_immArg val) 0)).comp
          (h.write reg _ (isRi_regArg 0))).start
      · simp only [if_neg hmask]
        exact (h.write reg _ (isRi_immArg val)).start

/-- The rounds of a benchmark, in front of the jump back. -/
theorem benchBody_pushes : Pushes 9 fun prog =>
    let prog := drv.read prog reg
    let prog := mdioProgPush prog (insn .jeq (regArg 0) (regArg 7) (immArg 1))
    let prog := mdioProgPush prog (insn .emit (regArg 0) 0 0)
    mdioProgPush prog (insn .add (regArg 6) (immArg 1) (regArg 6)) :=
  ((h.read reg).pushSkip (skip_jeq (isRi_regArg 0) (isRi_regArg 7))
    (plain_emit (isRi_regArg 0))).push (plain_add (isRi_regArg 6) (isRi_immArg 1) 6)

/-- The loop of the benchmark starts behind its setup. -/
theorem mdioCommonBenchProg_assembled (val : Option (BitVec 32)) :
    Assembled (mdioCommonBenchProg drv reg val) := by
  have hsetup : Assembled (benchSetup drv reg val) := by
    have hcount := plain_add (isRi_immArg 0) (isRi_immArg 0) 6
    cases val with
    | none => exact (((h.read reg).push (plain_add (isRi_regArg 0) (isRi_immArg 0) 7)).push hcount).start
    | some val =>
        exact (((Pushes.plain (plain_add (isRi_immArg val) (isRi_immArg 0) 7)).comp
          (h.write reg _ (isRi_regArg 7))).push hcount).start
  have hsite := GotoSite.bench (h.read reg).lengthens val []
  rw [List.append_nil] at hsite
  cases val <;>
  exact (benchBody_pushes h reg).close (by decide) hsetup
    (goto_jne (isRi_regArg 6) (isRi_immArg 1000) _ _) hsite

/-- The program of `dump` is assembled, with and without a dump hook. -/
theorem mdioCommonDumpProg_assembled {range : RegRange} {prog : MdioProg}
    (hprog : mdioCommonDumpProg drv range = some prog) : Assembled prog := by
  unfold mdioCommonDumpProg at hprog
  split at hprog
  · rename_i dump hdump
    exact h.dump dump range prog hdump hprog
  · obtain ⟨regs, -, rfl⟩ := Option.map_eq_some_iff.mp hprog
    exact (Pushes.foldl fun r _ => (h.read r).push (plain_emit (isRi_regArg 0))).start

omit h

/-- Every program of the common operations is assembled. -/
theorem CommonProg.assembled {dev : MdioDevice} {prog : MdioProg} (hprog : CommonProg dev prog)
    (hdrv : DriverPushes dev.driver) : Assembled prog := by
  cases hprog with
  | raw write _ => exact mdioCommonRawProg_assembled hdrv _ write
  | bench val _ => exact mdioCommonBenchProg_assembled hdrv _ val
  | dump _ hprog => exact mdioCommonDumpProg_assembled hdrv hprog

/-- The identification of a switch is assembled. -/
theorem mvlsIdProg_assembled : Assembled (mvlsIdProg id) :=
  ((mvlsReadTo_pushes id _ 0).push (plain_emit (isRi_regArg 0))).start

/-- The LAG operation goes on from its first write. -/
theorem mvlsLagProg_rest : ∃ n g, Pushes n g ∧ mvlsLagProg id =
    g (mvlsWrite id [] (mvlsReg mvlsG2 0x08) (immArg (BitVec.ofNat 32 0 <<< 11))) := by
  have hread (r : BitVec 32) : Pushes 6 fun prog => pushEmit (mvlsRead id prog r) :=
    (mvlsReadTo_pushes id r 0).push (plain_emit (isRi_regArg 0))
  have hmasks := (hread (mvlsReg mvlsG2 0x08)).comp
    (Pushes.foldl (l := (List.range 15).map Nat.succ) fun i _ =>
      (mvlsWrite_pushes id (mvlsReg mvlsG2 0x08)
        (isRi_immArg (BitVec.ofNat 32 i <<< 11))).comp (hread (mvlsReg mvlsG2 0x08)))
  have hmaps := Pushes.foldl (l := List.range 8) fun i _ =>
    ((((mvlsReadTo_pushes id (mvlsReg mvlsG2 0x07) 0).push
      (plain_and (isRi_regArg 0) (isRi_immArg (1 <<< 11)) 0)).push
      (plain_or (isRi_regArg 0) (isRi_immArg (BitVec.ofNat 32 i <<< 12)) 0)).comp
      (mvlsWrite_pushes id (mvlsReg mvlsG2 0x07) (isRi_regArg 0))).comp
      (hread (mvlsReg mvlsG2 0x07))
  exact ⟨_, _, hmasks.comp hmaps, rfl⟩

/-- The program of the trunk tables is assembled. -/
theorem mvlsLagProg_assembled : Assembled (mvlsLagProg id) := by
  obtain ⟨n, g, hg, hprog⟩ := mvlsLagProg_rest id
  rw [hprog]
  exact ((mvlsWrite_pushes id _ (isRi_immArg _)).comp hg).start

theorem mvlsCounterReadOne_pushes (counter : BitVec 8) :
    Pushes 24 fun prog => mvlsCounterReadOne id prog counter :=
  (((mvlsWrite_pushes id _ (isRi_immArg _)).comp (mvlsWait_pushes id _)).comp
    ((mvlsReadTo_pushes id _ 0).push (plain_emit (isRi_regArg 0)))).comp
    ((mvlsReadTo_pushes id _ 0).push (plain_emit (isRi_regArg 0)))

/-- A round of the loop over the ports, in front of the jump back. -/
theorem counterRound_pushes (shift : BitVec 32) : Pushes 157 fun prog =>
    let prog := mvlsWrite id prog (mvlsReg mvlsG1 0x1d) (regArg 1)
    let prog := mvlsWait id prog (mvlsReg mvlsG1 0x1d)
    let prog := [0x04, 0x06, 0x07, 0x10, 0x13, 0x12].foldl (mvlsCounterReadOne id) prog
    mdioProgPush prog (insn .add (regArg 1) (immArg shift) (regArg 1)) :=
  ((((mvlsWrite_pushes id _ (isRi_regArg 1)).comp (mvlsWait_pushes id _)).comp
    (Pushes.foldl (l := [0x04, 0x06, 0x07, 0x10, 0x13, 0x12]) fun counter _ =>
      mvlsCounterReadOne_pushes id counter)).push
    (plain_add (isRi_regArg 1) (isRi_immArg shift) 1)).mono (by decide)

/-- The counter operation goes on from its first wait. -/
theorem mvlsCounterProg_rest (fam : MvlsFamliy) : ∃ n g, Lengthens n g ∧
    mvlsCounterProg id fam = g (mvlsWait id [] (mvlsReg mvlsG1 0x1d)) :=
  ⟨_, _, ((Pushes.plain (plain_add (isRi_immArg _) (isRi_immArg 0) 1)).comp
    (counterRound_pushes id (mvlsCounterBase fam).2)).lengthens.push fun _ =>
      insn .jne (regArg 1) (immArg (1 <<< 15 ||| 5 <<< 12 |||
        ((mvlsCounterBase fam).1 + (mvlsCounterBase fam).2 * 11))) (gotoArg _ _), rfl⟩

/-- The loop over the ports starts behind its setup. -/
theorem mvlsCounterProg_assembled (fam : MvlsFamliy) : Assembled (mvlsCounterProg id fam) := by
  have hsetup : Assembled (counterSetup id fam) :=
    ((mvlsWait_pushes id _).push (plain_add (isRi_immArg _) (isRi_immArg 0) 1)).start
  have hsite := GotoSite.counter id fam []
  rw [List.append_nil] at hsite
  exact (counterRound_pushes id (mvlsCounterBase fam).2).close (by decide) hsetup
    (goto_jne (isRi_regArg 1) (isRi_immArg _) _ _) hsite

/-- The ATU operation goes on from its first wait or, if it is for one filtering
identifier, from its first read. -/
theorem mvlsAtuProg_rest (fid : Option (BitVec 32)) (op : BitVec 8) : ∃ n g, Pushes n g ∧
    mvlsAtuProg id fid op = g (match fid with
      | some _ => mvlsReadTo id [] (mvlsReg mvlsG1 0x01) 0
      | none => mvlsWait id [] (mvlsReg mvlsG1 0x0b)) := by
  have hrun := (((mvlsReadTo_pushes id (mvlsReg mvlsG1 0x0b) 0).push
    (plain_and (isRi_regArg 0) (isRi_immArg 0xfff) 0)).push
    (plain_or (isRi_regArg 0) (isRi_immArg (1 <<< 15 ||| op.setWidth 32 <<< 12)) 0)).comp
    ((mvlsWrite_pushes id (mvlsReg mvlsG1 0x0b) (isRi_regArg 0)).comp
      (mvlsWait_pushes id (mvlsReg mvlsG1 0x0b)))
  cases fid with
  | none => exact ⟨_, _, hrun, rfl⟩
  | some fid =>
      exact ⟨_, _, ((((Pushes.plain (plain_and (isRi_regArg 0) (isRi_immArg 0xf0000) 0)).push
        (plain_or (isRi_regArg 0) (isRi_immArg (fid &&& 0xfff)) 0)).comp
        (mvlsWrite_pushes id (mvlsReg mvlsG1 0x01) (isRi_regArg 0))).comp
        (mvlsWait_pushes id (mvlsReg mvlsG1 0x0b))).comp hrun, rfl⟩

/-- The program of an ATU command is assembled. -/
theorem mvlsAtuProg_assembled (fid : Option (BitVec 32)) (op : BitVec 8) :
    Assembled (mvlsAtuProg id fid op) := by
  obtain ⟨n, g, hg, hprog⟩ := mvlsAtuProg_rest id fid op
  rw [hprog]
  cases fid with
  | none => exact ((mvlsWait_pushes id _).comp hg).start
  | some fid => exact ((mvlsReadTo_pushes id _ 0).comp hg).start

end Programs

/-! ## Where the jumps back lead -/

/-- The last instruction of what has been pushed is a jump back. -/
theorem jumpTarget_last {f : MdioProg → MdioProg} {n : Nat} (hf : Lengthens n f) (hn : n < 2 ^ 15)
    {setup : MdioProg} {i : MdioNlInsn} (hi : Goto (f setup) setup.length i) (rest : MdioProg) :
    jumpTarget (mdioProgPush (f setup) i ++ rest) ((mdioProgPush (f setup) i).length - 1) =
      some (setup.length : Int) := by
  obtain ⟨hfront, hlength⟩ := hf setup
  rw [mdioProgPush_length, Nat.add_sub_cancel, jumpTarget_append_of_lt (by simp)]
  exact hi.jumpTarget hfront.length_le (by omega)

/-- Every jump made with `GOTO` leads to exactly the index that its function has kept
for it. -/
theorem GotoSite.lands {prog : MdioProg} {k loop : Nat} (h : GotoSite prog k loop) :
    jumpTarget prog k = some (loop : Int) := by
  cases h with
  | waitCmd prog id rest =>
      exact jumpTarget_last ((Pushes.plain (plain_read (isRi_immArg _) (isRi_immArg _) _)).push
        (plain_and (isRi_regArg _) (isRi_immArg _) _)).lengthens (by decide)
        (goto_jeq (isRi_regArg _) (isRi_immArg _) _ _) rest
  | wait id prog reg rest =>
      exact jumpTarget_last ((mvlsReadTo_pushes id reg 0).push
        (plain_and (isRi_regArg _) (isRi_immArg _) _)).lengthens (by decide)
        (goto_jeq (isRi_regArg _) (isRi_immArg _) _ _) rest
  | @bench drv reg hread val rest =>
      have hbody := ((hread.push fun _ => insn .jeq (regArg 0) (regArg 7) (immArg 1)).push fun _ =>
        insn .emit (regArg 0) 0 0).push fun _ => insn .add (regArg 6) (immArg 1) (regArg 6)
      cases val <;>
      exact jumpTarget_last hbody (by decide) (goto_jne (isRi_regArg 6) (isRi_immArg 1000) _ _) rest
  | counter id fam rest =>
      exact jumpTarget_last (counterRound_pushes id (mvlsCounterBase fam).2).lengthens (by decide)
        (goto_jne (isRi_regArg 1) (isRi_immArg _) _ _) rest

end MdioTools.Client
