import MdioTools.Kernel.Insn
import MdioTools.Library.Machine

/-!
# The byte-code machine `mdio_nl_eval`

The interpreter runs a program under `mdio_lock`.  What it needs from outside
is split in two: the bus, which all requests share, and the host of one
request, which reads the clock and takes the emitted words.  One iteration of
the loop is one step of a machine, so every statement about a run is one about
{lit}`Machine.run`, for runs of any length.

Main results:

- Definition {lit}`evalInsn`: the {lit}`switch` of the loop, with every exit.
- Definition {lit}`mdioNlEval`: the loop as a machine.
- Theorem {lit}`evalStep_withBus`: an iteration that makes no bus transaction
  leaves the bus alone.
- Theorem {lit}`evalInsn_mapHost`: an instruction for hosts that emit alike.
- Theorem {lit}`mdioNlEval_host`: what holds of the host when a run ends.
-/

namespace MdioTools.Kernel

open Library

/-! ## Bus addresses -/

/-- The target of a bus transaction: a Clause 22 address, or the port and
device address of Clause 45. -/
inductive MdioTarget
  | c22 (addr : BitVec 16)
  | c45 (prtad devad : BitVec 16)
deriving DecidableEq, Repr

/-- `MDIO_PHY_ID_C45`, `MDIO_PHY_ID_PRTAD` and `MDIO_PHY_ID_DEVAD` of
{lit}`linux/mdio.h`. -/
def mdioPhyIdC45 : BitVec 16 := 0x8000
def mdioPhyIdPrtad : BitVec 16 := 0x03e0
def mdioPhyIdDevad : BitVec 16 := 0x001f

/-- `mdio_phy_id_is_c45`: the Clause 45 bit is set and no bit outside the
address word is. -/
def mdioPhyIdIsC45 (id : BitVec 16) : Bool :=
  (id &&& mdioPhyIdC45) ≠ 0 ∧
    (id &&& ~~~(mdioPhyIdC45 ||| mdioPhyIdPrtad ||| mdioPhyIdDevad)) = 0

/-- The transaction target chosen for a device word by the READ and WRITE
branches of `mdio_nl_eval`. -/
def mdioTarget (dev : BitVec 16) : MdioTarget :=
  if mdioPhyIdIsC45 dev then
    .c45 ((dev &&& mdioPhyIdPrtad) >>> 5) (dev &&& mdioPhyIdDevad)
  else .c22 dev

/-- Without the top bit a device word is a Clause 22 address. -/
theorem mdioTarget_of_lt {dev : BitVec 16} (h : dev.toNat < 0x8000) :
    mdioTarget dev = .c22 dev := by
  have hbit : dev &&& mdioPhyIdC45 = 0 := by
    have htest : dev.getLsbD 15 = false := Nat.testBit_lt_two_pow h
    have htop : mdioPhyIdC45 = BitVec.twoPow 16 15 := by decide
    rw [htop, BitVec.and_twoPow, htest]
    rfl
  simp [mdioTarget, mdioPhyIdIsC45, hbit]

/-- `struct mii_bus`: a bus with states `β`.  A negative result is an error. -/
structure MiiBus (β : Type) where
  /-- `__mdiobus_read` and `__mdiobus_c45_read`. -/
  read : MdioTarget → BitVec 16 → β → Int × β
  /-- `__mdiobus_write` and `__mdiobus_c45_write`. -/
  write : MdioTarget → BitVec 16 → BitVec 16 → β → Int × β

/-- A bus that answers every access with 0. -/
def nullBus : MiiBus Unit where
  read _ _ b := (0, b)
  write _ _ _ b := (0, b)

/-- What one request brings with it: a clock and a place for emitted words. -/
structure Host (π : Type) where
  /-- `time_after(jiffies, timeout)` at the next reading of the clock. -/
  expired : π → Bool × π
  /-- `mdio_nl_emit`. -/
  emit : BitVec 32 → π → Int × π

/-! ## The interpreter loop -/

/-- The variables of `mdio_nl_eval`, its host and the bus. -/
structure EvalState (π β : Type) where
  pc : BitVec 32
  regs : Regs
  ret : Int
  host : π
  bus : β

/-- The way by which a run leaves the loop. -/
inductive EvalExit
  | progEnd | timeout | access | emit | illegal
deriving DecidableEq, Repr

/-- The result of a run: `mdio_nl_eval` returned `ret`, or a `BUG` fired. -/
inductive EvalResult (π β : Type)
  | returned (why : EvalExit) (ret : Int) (host : π) (bus : β)
  | bug

variable {π β : Type}

/-- The entry of the loop. -/
def EvalState.entry (host : π) (bus : β) : EvalState π β where
  pc := 0
  regs := fun _ => 0
  ret := 0
  host := host
  bus := bus

/-- `*__arg_r(arg2) = value`, after which the loop moves on. -/
def EvalState.store (s : EvalState π β) (dst : Fin 8) (value : BitVec 16) : EvalState π β :=
  { s with pc := s.pc + 1, regs := Function.update s.regs dst value }

/-- `pc += (s16)off`, after which the loop moves on. -/
def EvalState.jump (s : EvalState π β) (off : BitVec 16) : EvalState π β :=
  { s with pc := s.pc + off.signExtend 32 + 1 }

/-- The next instruction in order. -/
def EvalState.next (s : EvalState π β) : EvalState π β :=
  { s with pc := s.pc + 1 }

/-- The body of the `switch` in `mdio_nl_eval`, together with the increment of
the loop.  The result {lean}`none` is a `BUG` of an argument accessor. -/
def evalInsn (bus : MiiBus β) (host : Host π) (insn : MdioNlInsn) (s : EvalState π β) :
    Option (EvalState π β ⊕ EvalResult π β) :=
  match MdioNlOp.ofCode insn.op with
  | some .read => do
      let dev ← argRi insn.arg0 s.regs
      let reg ← argRi insn.arg1 s.regs
      let r := bus.read (mdioTarget dev) reg s.bus
      if r.1 < 0 then
        some (.inr (.returned .access r.1 s.host r.2))
      else
        let dst ← argR insn.arg2
        some (.inl ({ s with ret := 0, bus := r.2 }.store dst (BitVec.ofInt 16 r.1)))
  | some .write => do
      let dev ← argRi insn.arg0 s.regs
      let reg ← argRi insn.arg1 s.regs
      let val ← argRi insn.arg2 s.regs
      let r := bus.write (mdioTarget dev) reg val s.bus
      if r.1 < 0 then
        some (.inr (.returned .access r.1 s.host r.2))
      else
        some (.inl { s with ret := 0, bus := r.2 }.next)
  | some .and => do
      let a ← argRi insn.arg0 s.regs
      let b ← argRi insn.arg1 s.regs
      let dst ← argR insn.arg2
      some (.inl (s.store dst (a &&& b)))
  | some .or => do
      let a ← argRi insn.arg0 s.regs
      let b ← argRi insn.arg1 s.regs
      let dst ← argR insn.arg2
      some (.inl (s.store dst (a ||| b)))
  | some .add => do
      let a ← argRi insn.arg0 s.regs
      let b ← argRi insn.arg1 s.regs
      let dst ← argR insn.arg2
      some (.inl (s.store dst (a + b)))
  | some .jeq => do
      let a ← argRi insn.arg0 s.regs
      let b ← argRi insn.arg1 s.regs
      if a = b then
        let off ← argI insn.arg2
        some (.inl (s.jump off))
      else
        some (.inl s.next)
  | some .jne => do
      let a ← argRi insn.arg0 s.regs
      let b ← argRi insn.arg1 s.regs
      if a ≠ b then
        let off ← argI insn.arg2
        some (.inl (s.jump off))
      else
        some (.inl s.next)
  | some .emit => do
      let a ← argRi insn.arg0 s.regs
      let r := host.emit (a.setWidth 32) s.host
      if r.1 < 0 then
        some (.inr (.returned .emit r.1 r.2 s.bus))
      else
        some (.inl { s with ret := 0, host := r.2 }.next)
  | some .unspec | none =>
      some (.inr (.returned .illegal (-einval) s.host s.bus))

/-- One iteration of the loop of `mdio_nl_eval`: the test of `pc`, the deadline
and the instruction. -/
def evalStep (prog : List MdioNlInsn) (bus : MiiBus β) (host : Host π)
    (s : EvalState π β) : EvalState π β ⊕ EvalResult π β :=
  if h : s.pc.toNat < prog.length then
    let clk := host.expired s.host
    if clk.1 then
      .inr (.returned .timeout (-etimedout) clk.2 s.bus)
    else
      (evalInsn bus host prog[s.pc.toNat] { s with host := clk.2 }).getD (.inr .bug)
  else .inr (.returned .progEnd s.ret s.host s.bus)

/-- `mdio_nl_eval` on one program, as a machine. -/
def mdioNlEval (prog : List MdioNlInsn) (bus : MiiBus β) (host : Host π) :
    Machine (EvalState π β) (EvalResult π β) where
  step := evalStep prog bus host

/-! ## The three outcomes of an iteration -/

/-- Outside the program the loop ends with its status. -/
theorem evalStep_end {prog : List MdioNlInsn} {bus : MiiBus β} {host : Host π}
    {s : EvalState π β} (h : ¬s.pc.toNat < prog.length) :
    evalStep prog bus host s = .inr (.returned .progEnd s.ret s.host s.bus) := by
  unfold evalStep
  rw [dif_neg h]

/-- A late reading of the clock ends the run at once. -/
theorem evalStep_late {prog : List MdioNlInsn} {bus : MiiBus β} {host : Host π}
    {s : EvalState π β} (hpc : s.pc.toNat < prog.length) (h : (host.expired s.host).1 = true) :
    evalStep prog bus host s =
      .inr (.returned .timeout (-etimedout) (host.expired s.host).2 s.bus) := by
  unfold evalStep
  rw [dif_pos hpc]
  exact if_pos h

/-- In time, an iteration is that of its instruction. -/
theorem evalStep_insn {prog : List MdioNlInsn} {bus : MiiBus β} {host : Host π}
    {s : EvalState π β} (hpc : s.pc.toNat < prog.length) (h : ¬(host.expired s.host).1 = true) :
    evalStep prog bus host s = (evalInsn bus host prog[s.pc.toNat]
      { s with host := (host.expired s.host).2 }).getD (.inr .bug) := by
  unfold evalStep
  rw [dif_pos hpc]
  exact if_neg h

/-! ## Iterations without a bus transaction -/

/-- The loop variables of one state with the bus of another. -/
def EvalState.withBus {α : Type} (s : EvalState π α) (b : β) : EvalState π β :=
  ⟨s.pc, s.regs, s.ret, s.host, b⟩

/-- A result with the bus of another. -/
def EvalResult.withBus {α : Type} (r : EvalResult π α) (b : β) : EvalResult π β :=
  match r with
  | .returned why ret h _ => .returned why ret h b
  | .bug => .bug

/-- READ and WRITE are the instructions that access the bus. -/
def accessesBus (insn : MdioNlInsn) : Bool :=
  match MdioNlOp.ofCode insn.op with
  | some .read | some .write => true
  | _ => false

/-- The next iteration of the loop makes a bus transaction. -/
def EvalState.transacts (prog : List MdioNlInsn) (host : Host π) (s : EvalState π β) : Bool :=
  if h : s.pc.toNat < prog.length then
    !(host.expired s.host).1 && accessesBus prog[s.pc.toNat]
  else false

/-- The other instructions do the same on every bus. -/
theorem evalInsn_withBus {α : Type} {insn : MdioNlInsn} (h : accessesBus insn = false)
    (bus : MiiBus β) (bus' : MiiBus α) (host : Host π) (s : EvalState π α) (b : β) :
    evalInsn bus host insn (s.withBus b) =
      (evalInsn bus' host insn s).map (Sum.map (·.withBus b) (·.withBus b)) := by
  unfold accessesBus at h
  unfold evalInsn
  cases hop : MdioNlOp.ofCode insn.op with
  | none => rfl
  | some op =>
      rw [hop] at h
      cases op with
      | read | write => cases h
      | unspec => rfl
      | and | or | add =>
          simp only [EvalState.withBus]
          cases argRi insn.arg0 s.regs <;> cases argRi insn.arg1 s.regs <;>
            cases argR insn.arg2 <;> rfl
      | jeq | jne =>
          simp only [EvalState.withBus]
          cases argRi insn.arg0 s.regs with
          | none => rfl
          | some a =>
              cases argRi insn.arg1 s.regs with
              | none => rfl
              | some c =>
                  simp only [Option.bind_eq_bind, Option.bind_some]
                  split
                  · cases argI insn.arg2 <;> rfl
                  · rfl
      | emit =>
          simp only [EvalState.withBus]
          cases argRi insn.arg0 s.regs with
          | none => rfl
          | some a =>
              change (if (host.emit (a.setWidth 32) s.host).1 < 0 then _ else _) =
                Option.map _ (if (host.emit (a.setWidth 32) s.host).1 < 0 then _ else _)
              split <;> rfl

/-- An iteration without a transaction is the same on every bus, which it leaves
alone. -/
theorem evalStep_withBus {α : Type} {prog : List MdioNlInsn} {host : Host π} {s : EvalState π α}
    (h : s.transacts prog host = false) (bus : MiiBus β) (bus' : MiiBus α) (b : β) :
    evalStep prog bus host (s.withBus b) =
      (evalStep prog bus' host s).map (·.withBus b) (·.withBus b) := by
  unfold EvalState.transacts at h
  unfold evalStep
  by_cases hpc : s.pc.toNat < prog.length
  · rw [dif_pos hpc] at h
    rw [dif_pos (show (s.withBus b).pc.toNat < prog.length from hpc), dif_pos hpc]
    cases hlate : (host.expired s.host).1 with
    | true =>
        simp only [EvalState.withBus, hlate, if_true]
        rfl
    | false =>
        rw [hlate] at h
        have hinsn := evalInsn_withBus (by simpa using h) bus bus' host
          { s with host := (host.expired s.host).2 } b
        simp only [EvalState.withBus, hlate, Bool.false_eq_true, if_false] at hinsn ⊢
        rw [hinsn]
        cases evalInsn bus' host prog[s.pc.toNat] { s with host := (host.expired s.host).2 } <;> rfl
  · rw [dif_neg (show ¬(s.withBus b).pc.toNat < prog.length from hpc), dif_neg hpc]
    rfl

/-! ## Hosts that stand for each other -/

/-- The loop variables of one state with what `f` makes of its host. -/
def EvalState.mapHost {ρ : Type} (f : π → ρ) (s : EvalState π β) : EvalState ρ β :=
  ⟨s.pc, s.regs, s.ret, f s.host, s.bus⟩

/-- A result with what `f` makes of its host. -/
def EvalResult.mapHost {ρ : Type} (f : π → ρ) : EvalResult π β → EvalResult ρ β
  | .returned why ret h b => .returned why ret (f h) b
  | .bug => .bug

/-- An instruction does the same for two hosts that emit in the same way. -/
theorem evalInsn_mapHost {ρ : Type} (host : Host π) (host' : Host ρ) (f : π → ρ)
    (hemit : ∀ d h, host'.emit d (f h) = ((host.emit d h).1, f (host.emit d h).2))
    (bus : MiiBus β) (insn : MdioNlInsn) (s : EvalState π β) :
    evalInsn bus host' insn (s.mapHost f) =
      (evalInsn bus host insn s).map (Sum.map (·.mapHost f) (·.mapHost f)) := by
  unfold evalInsn
  cases MdioNlOp.ofCode insn.op with
  | none => rfl
  | some op =>
      simp only [EvalState.mapHost]
      cases op with
      | unspec => rfl
      | and | or | add =>
          cases argRi insn.arg0 s.regs <;> cases argRi insn.arg1 s.regs <;>
            cases argR insn.arg2 <;> rfl
      | read =>
          cases argRi insn.arg0 s.regs with
          | none => rfl
          | some dev =>
              cases argRi insn.arg1 s.regs with
              | none => rfl
              | some reg =>
                  change (if (bus.read (mdioTarget dev) reg s.bus).1 < 0 then _ else _) =
                    Option.map _ (if (bus.read (mdioTarget dev) reg s.bus).1 < 0 then _ else _)
                  split
                  · rfl
                  · cases argR insn.arg2 <;> rfl
      | write =>
          cases argRi insn.arg0 s.regs with
          | none => rfl
          | some dev =>
              cases argRi insn.arg1 s.regs with
              | none => rfl
              | some reg =>
                  cases argRi insn.arg2 s.regs with
                  | none => rfl
                  | some val =>
                      change (if (bus.write (mdioTarget dev) reg val s.bus).1 < 0 then _ else _) =
                        Option.map _
                          (if (bus.write (mdioTarget dev) reg val s.bus).1 < 0 then _ else _)
                      split <;> rfl
      | jeq | jne =>
          cases argRi insn.arg0 s.regs with
          | none => rfl
          | some a =>
              cases argRi insn.arg1 s.regs with
              | none => rfl
              | some c =>
                  simp only [Option.bind_eq_bind, Option.bind_some]
                  split
                  · cases argI insn.arg2 <;> rfl
                  · rfl
      | emit =>
          cases argRi insn.arg0 s.regs with
          | none => rfl
          | some a =>
              simp only [Option.bind_eq_bind, Option.bind_some, hemit]
              split <;> rfl

/-- So does an iteration, if the hosts read the same from their clocks. -/
theorem evalStep_mapHost {ρ : Type} {host : Host π} {host' : Host ρ} {f : π → ρ}
    (hemit : ∀ d h, host'.emit d (f h) = ((host.emit d h).1, f (host.emit d h).2))
    (hexpired : ∀ h, host'.expired (f h) = ((host.expired h).1, f (host.expired h).2))
    (prog : List MdioNlInsn) (bus : MiiBus β) (s : EvalState π β) :
    evalStep prog bus host' (s.mapHost f) =
      (evalStep prog bus host s).map (·.mapHost f) (·.mapHost f) := by
  unfold evalStep
  by_cases hpc : s.pc.toNat < prog.length
  · rw [dif_pos hpc, dif_pos (show (s.mapHost f).pc.toNat < prog.length from hpc)]
    simp only [show (s.mapHost f).host = f s.host from rfl, hexpired]
    by_cases hlate : (host.expired s.host).1 = true
    · rw [if_pos hlate, if_pos hlate]
      rfl
    · rw [if_neg hlate, if_neg hlate]
      have hinsn := evalInsn_mapHost host host' f hemit bus prog[s.pc.toNat]
        { s with host := (host.expired s.host).2 }
      simp only [EvalState.mapHost] at hinsn ⊢
      rw [hinsn]
      cases evalInsn bus host prog[s.pc.toNat] { s with host := (host.expired s.host).2 } <;> rfl
  · rw [dif_neg hpc, dif_neg (show ¬(s.mapHost f).pc.toNat < prog.length from hpc)]
    rfl

/-- And a whole run. -/
theorem mdioNlEval_mapHost {ρ : Type} {host : Host π} {host' : Host ρ} (f : π → ρ)
    (hemit : ∀ d h, host'.emit d (f h) = ((host.emit d h).1, f (host.emit d h).2))
    (hexpired : ∀ h, host'.expired (f h) = ((host.expired h).1, f (host.expired h).2))
    (prog : List MdioNlInsn) (bus : MiiBus β) (n : Nat) (s : EvalState π β) :
    (mdioNlEval prog bus host').run n (s.mapHost f) =
      ((mdioNlEval prog bus host).run n s).map (·.mapHost f) (·.mapHost f) := by
  induction n generalizing s with
  | zero => rfl
  | succ n ih =>
      have hstep := evalStep_mapHost hemit hexpired prog bus s
      cases hs : evalStep prog bus host s with
      | inl t =>
          rw [hs] at hstep
          rw [Machine.run_succ_of_step hstep, Machine.run_succ_of_step hs, ih]
      | inr r =>
          rw [hs] at hstep
          rw [Machine.run_succ_of_halt hstep, Machine.run_succ_of_halt hs]
          rfl

/-! ## What an instruction can do -/

/-- The outcomes of an instruction at state `s` that runs into no `BUG`. -/
inductive InsnOutcome (bus : MiiBus β) (host : Host π) (insn : MdioNlInsn) (s : EvalState π β) :
    EvalState π β ⊕ EvalResult π β → Prop
  | illegal (hop : MdioNlOp.ofCode insn.op = none ∨ MdioNlOp.ofCode insn.op = some .unspec) :
      InsnOutcome bus host insn s (.inr (.returned .illegal (-einval) s.host s.bus))
  | readFailed {dev reg : BitVec 16} (hop : MdioNlOp.ofCode insn.op = some .read)
      (hdev : argRi insn.arg0 s.regs = some dev) (hreg : argRi insn.arg1 s.regs = some reg)
      (hneg : (bus.read (mdioTarget dev) reg s.bus).1 < 0) :
      InsnOutcome bus host insn s (.inr (.returned .access (bus.read (mdioTarget dev) reg s.bus).1
        s.host (bus.read (mdioTarget dev) reg s.bus).2))
  | read {dev reg : BitVec 16} {dst : Fin 8} (hop : MdioNlOp.ofCode insn.op = some .read)
      (hdev : argRi insn.arg0 s.regs = some dev) (hreg : argRi insn.arg1 s.regs = some reg)
      (hdst : argR insn.arg2 = some dst)
      (hok : ¬(bus.read (mdioTarget dev) reg s.bus).1 < 0) :
      InsnOutcome bus host insn s
        (.inl ({ s with ret := 0, bus := (bus.read (mdioTarget dev) reg s.bus).2 }.store dst
          (BitVec.ofInt 16 (bus.read (mdioTarget dev) reg s.bus).1)))
  | writeFailed {dev reg val : BitVec 16} (hop : MdioNlOp.ofCode insn.op = some .write)
      (hdev : argRi insn.arg0 s.regs = some dev) (hreg : argRi insn.arg1 s.regs = some reg)
      (hval : argRi insn.arg2 s.regs = some val)
      (hneg : (bus.write (mdioTarget dev) reg val s.bus).1 < 0) :
      InsnOutcome bus host insn s
        (.inr (.returned .access (bus.write (mdioTarget dev) reg val s.bus).1 s.host
          (bus.write (mdioTarget dev) reg val s.bus).2))
  | write {dev reg val : BitVec 16} (hop : MdioNlOp.ofCode insn.op = some .write)
      (hdev : argRi insn.arg0 s.regs = some dev) (hreg : argRi insn.arg1 s.regs = some reg)
      (hval : argRi insn.arg2 s.regs = some val)
      (hok : ¬(bus.write (mdioTarget dev) reg val s.bus).1 < 0) :
      InsnOutcome bus host insn s
        (.inl { s with ret := 0, bus := (bus.write (mdioTarget dev) reg val s.bus).2 }.next)
  | alu {a b v : BitVec 16} {dst : Fin 8}
      (hop : (MdioNlOp.ofCode insn.op = some .and ∧ v = a &&& b) ∨
        (MdioNlOp.ofCode insn.op = some .or ∧ v = a ||| b) ∨
        (MdioNlOp.ofCode insn.op = some .add ∧ v = a + b))
      (ha : argRi insn.arg0 s.regs = some a) (hb : argRi insn.arg1 s.regs = some b)
      (hdst : argR insn.arg2 = some dst) : InsnOutcome bus host insn s (.inl (s.store dst v))
  | jump {a b off : BitVec 16}
      (hop : (MdioNlOp.ofCode insn.op = some .jeq ∧ a = b) ∨
        (MdioNlOp.ofCode insn.op = some .jne ∧ a ≠ b))
      (ha : argRi insn.arg0 s.regs = some a) (hb : argRi insn.arg1 s.regs = some b)
      (hoff : argI insn.arg2 = some off) : InsnOutcome bus host insn s (.inl (s.jump off))
  | stay {a b : BitVec 16}
      (hop : (MdioNlOp.ofCode insn.op = some .jeq ∧ a ≠ b) ∨
        (MdioNlOp.ofCode insn.op = some .jne ∧ a = b))
      (ha : argRi insn.arg0 s.regs = some a) (hb : argRi insn.arg1 s.regs = some b) :
      InsnOutcome bus host insn s (.inl s.next)
  | emitFailed {a : BitVec 16} (hop : MdioNlOp.ofCode insn.op = some .emit)
      (ha : argRi insn.arg0 s.regs = some a)
      (hneg : (host.emit (a.setWidth 32) s.host).1 < 0) :
      InsnOutcome bus host insn s (.inr (.returned .emit (host.emit (a.setWidth 32) s.host).1
        (host.emit (a.setWidth 32) s.host).2 s.bus))
  | emit {a : BitVec 16} (hop : MdioNlOp.ofCode insn.op = some .emit)
      (ha : argRi insn.arg0 s.regs = some a)
      (hok : ¬(host.emit (a.setWidth 32) s.host).1 < 0) :
      InsnOutcome bus host insn s
        (.inl { s with ret := 0, host := (host.emit (a.setWidth 32) s.host).2 }.next)

/-- An instruction does nothing else. -/
theorem evalInsn_cases {bus : MiiBus β} {host : Host π} {insn : MdioNlInsn} {s : EvalState π β}
    {r : EvalState π β ⊕ EvalResult π β} (h : evalInsn bus host insn s = some r) :
    InsnOutcome bus host insn s r := by
  unfold evalInsn at h
  cases hop : MdioNlOp.ofCode insn.op with
  | none =>
      simp only [hop, Option.some.injEq] at h
      exact h ▸ .illegal (Or.inl hop)
  | some op =>
      cases op with
      | unspec =>
          simp only [hop, Option.some.injEq] at h
          exact h ▸ .illegal (Or.inr hop)
      | read =>
          simp only [hop, Option.bind_eq_bind, Option.bind_eq_some_iff] at h
          obtain ⟨dev, hdev, reg, hreg, h⟩ := h
          split at h
          · rename_i hneg
            cases h
            exact .readFailed hop hdev hreg hneg
          · rename_i hok
            simp only [Option.bind_eq_some_iff, Option.some.injEq] at h
            obtain ⟨dst, hdst, rfl⟩ := h
            exact .read hop hdev hreg hdst hok
      | write =>
          simp only [hop, Option.bind_eq_bind, Option.bind_eq_some_iff] at h
          obtain ⟨dev, hdev, reg, hreg, val, hval, h⟩ := h
          split at h
          · rename_i hneg
            cases h
            exact .writeFailed hop hdev hreg hval hneg
          · rename_i hok
            cases h
            exact .write hop hdev hreg hval hok
      | and =>
          simp only [hop, Option.bind_eq_bind, Option.bind_eq_some_iff, Option.some.injEq] at h
          obtain ⟨a, ha, b, hb, dst, hdst, rfl⟩ := h
          exact .alu (Or.inl ⟨hop, rfl⟩) ha hb hdst
      | or =>
          simp only [hop, Option.bind_eq_bind, Option.bind_eq_some_iff, Option.some.injEq] at h
          obtain ⟨a, ha, b, hb, dst, hdst, rfl⟩ := h
          exact .alu (Or.inr (Or.inl ⟨hop, rfl⟩)) ha hb hdst
      | add =>
          simp only [hop, Option.bind_eq_bind, Option.bind_eq_some_iff, Option.some.injEq] at h
          obtain ⟨a, ha, b, hb, dst, hdst, rfl⟩ := h
          exact .alu (Or.inr (Or.inr ⟨hop, rfl⟩)) ha hb hdst
      | jeq =>
          simp only [hop, Option.bind_eq_bind, Option.bind_eq_some_iff] at h
          obtain ⟨a, ha, b, hb, h⟩ := h
          split at h
          · rename_i heq
            simp only [Option.bind_eq_some_iff, Option.some.injEq] at h
            obtain ⟨off, hoff, rfl⟩ := h
            exact .jump (Or.inl ⟨hop, heq⟩) ha hb hoff
          · rename_i hne
            cases h
            exact .stay (Or.inl ⟨hop, hne⟩) ha hb
      | jne =>
          simp only [hop, Option.bind_eq_bind, Option.bind_eq_some_iff] at h
          obtain ⟨a, ha, b, hb, h⟩ := h
          split at h
          · rename_i hne
            simp only [Option.bind_eq_some_iff, Option.some.injEq] at h
            obtain ⟨off, hoff, rfl⟩ := h
            exact .jump (Or.inr ⟨hop, hne⟩) ha hb hoff
          · rename_i heq
            cases h
            exact .stay (Or.inr ⟨hop, not_not.mp heq⟩) ha hb
      | emit =>
          simp only [hop, Option.bind_eq_bind, Option.bind_eq_some_iff] at h
          obtain ⟨a, ha, h⟩ := h
          split at h
          · rename_i hneg
            cases h
            exact .emitFailed hop ha hneg
          · rename_i hok
            cases h
            exact .emit hop ha hok

/-! ## The host along a run -/

/-- One instruction changes the host by at most one emit, and a failed emit
ends the run with its error.  A `BUG` is not among its results. -/
theorem evalInsn_host {bus : MiiBus β} {host : Host π} {insn : MdioNlInsn}
    {s : EvalState π β} {r : EvalState π β ⊕ EvalResult π β}
    (h : evalInsn bus host insn s = some r) :
    match r with
    | .inl s' => s'.host = s.host ∨
        ∃ w, 0 ≤ (host.emit w s.host).1 ∧ s'.host = (host.emit w s.host).2
    | .inr (.returned _ ret h' _) => h' = s.host ∨
        ∃ w, (host.emit w s.host).1 < 0 ∧ ret = (host.emit w s.host).1 ∧
          h' = (host.emit w s.host).2
    | .inr .bug => False := by
  cases evalInsn_cases h with
  | emitFailed hop ha hneg => exact Or.inr ⟨_, hneg, rfl, rfl⟩
  | emit hop ha hok => exact Or.inr ⟨_, Int.not_lt.mp hok, rfl⟩
  | illegal | readFailed | read | writeFailed | write | alu | jump | stay => exact Or.inl rfl

/-- A property of the host that the clock and successful emits keep holds
during the run, and when it ends, unless it ends with a failed emit. -/
theorem mdioNlEval_host {prog : List MdioNlInsn} {bus : MiiBus β} {host : Host π}
    {I : π → Prop} {Q : Int → π → Prop} (hclock : ∀ h, I h → I (host.expired h).2)
    (hemit : ∀ w h, I h → 0 ≤ (host.emit w h).1 → I (host.emit w h).2)
    (hfail : ∀ w h, I h → (host.emit w h).1 < 0 → Q (host.emit w h).1 (host.emit w h).2)
    (hend : ∀ ret h, I h → Q ret h) {h : π} (b : β) (hstart : I h) (n : Nat) :
    (∀ s, (mdioNlEval prog bus host).run n (.entry h b) = .inl s → I s.host) ∧
      ∀ why ret h' b', (mdioNlEval prog bus host).run n (.entry h b) =
        .inr (.returned why ret h' b') → Q ret h' := by
  let J : EvalResult π β → Prop := fun r =>
    match r with
    | .returned _ ret h' _ => Q ret h'
    | .bug => True
  have hinsn : ∀ {s : EvalState π β} {r}, I s.host → ∀ {insn},
      evalInsn bus host insn { s with host := (host.expired s.host).2 } = some r →
      r.elim (fun s' => I s'.host) J := by
    intro s r hs insn hr
    have hcases := evalInsn_host hr
    cases r with
    | inl s' =>
        rcases hcases with heq | ⟨w, hok, heq⟩
        · simpa [heq] using hclock _ hs
        · simpa [heq] using hemit w _ (hclock _ hs) hok
    | inr r =>
        cases r with
        | bug => trivial
        | returned why ret h' b' =>
            rcases hcases with heq | ⟨w, hneg, hret, heq⟩
            · simpa [J, heq] using hend ret _ (hclock _ hs)
            · simpa [J, hret, heq] using hfail w _ (hclock _ hs) hneg
  have hstep : ∀ s, I s.host → (evalStep prog bus host s).elim (fun s' => I s'.host) J := by
    intro s hs
    unfold evalStep
    split
    · simp only
      split
      · exact hend _ _ (hclock _ hs)
      · rename_i hpc _
        cases hr : evalInsn bus host prog[s.pc.toNat]
            { s with host := (host.expired s.host).2 } with
        | none => trivial
        | some r => exact hinsn hs hr
    · exact hend _ _ hs
  have hrun := Machine.run_induct (m := mdioNlEval prog bus host) (I := fun s => I s.host)
    (Q := J)
    (fun s s' hs heq => by
      have := hstep s hs
      rwa [show evalStep prog bus host s = .inl s' from heq] at this)
    (fun s r hs heq => by
      have := hstep s hs
      rwa [show evalStep prog bus host s = .inr r from heq] at this) (s := .entry h b) hstart n
  exact ⟨hrun.1, fun why ret h' b' heq => hrun.2 _ heq⟩

end MdioTools.Kernel
