import MdioTools.Kernel.Reply
import MdioTools.Kernel.Validate

/-!
# Handling a request

{lit}`mdio_nl_cmd_xfer` checks which attributes are present, looks up the bus,
reads the time limit, opens a reply, runs the program, and closes the reply
with the status of the run.

Main results:

- Definition {lit}`mdioNlCmdXfer`: the handler, for a run of at most a given
  number of loop iterations.
- Theorem {lit}`mdioNlCmdXfer_cases`: how a handled request can end.
-/

namespace MdioTools.Kernel

open Library

/-- An attribute in memory: its payload and the bytes that follow it. -/
structure NlAttr where
  payload : List Byte
  after : List Byte

/-- `info->attrs`.  Of DATA and ERROR only the presence is looked at. -/
structure GenlAttrs where
  busId : Option NlAttr
  timeout : Option NlAttr
  prog : Option ProgAttr
  data : Bool
  error : Bool

/-- The C string that starts a block of memory. -/
def cString (mem : List Byte) : List Byte :=
  mem.takeWhile (· ≠ 0)

/-- The host of a request: its reply and the number of clock readings made. -/
structure XferHost where
  xfer : Xfer
  ticks : Nat

/-- Emits go to the reply; the `n`-th clock reading is past the deadline if
`late n`. -/
def xferHost (env : ReplyEnv) (late : Nat → Bool) : Host XferHost where
  expired h := (late h.ticks, { h with ticks := h.ticks + 1 })
  emit datum h :=
    let r := mdioNlEmit env datum h.xfer
    (r.1, { h with xfer := r.2 })

/-- What is left when the handler returns: the error, the reply, the bus, and,
if the program ran, its status and the log as it was when the run ended. -/
structure XferOutcome (β : Type) where
  err : Int
  xfer : Xfer
  bus : β
  status : Option Int
  ran : Option (List SkbEvent)

variable {β : Type}

/-- An outcome that says nothing of the bus, together with the bus. -/
def XferOutcome.onBus (out : XferOutcome Unit) (b : β) : XferOutcome β :=
  ⟨out.err, out.xfer, b, out.status, out.ran⟩

/-- `xfer.timeout_ms`: the attribute is read as 32 bits; the default is 100. -/
def timeoutMs (env : ReplyEnv) (attrs : GenlAttrs) : BitVec 32 :=
  match attrs.timeout with
  | some a => env.endian.get32 (a.payload ++ a.after)
  | none => 100

/-- The part of `mdio_nl_cmd_xfer` after a run that returned `ret`. -/
def xferFinish (env : ReplyEnv) (ret : Int) (x : Xfer) (b : β) : XferOutcome β :=
  let closed := mdioNlClose env true ret x
  ⟨closed.1, closed.2, b, some ret, some x.log⟩

/-- `mdio_nl_cmd_xfer`.  The result is {lean}`none` when the program is still
running after `fuel` iterations, or has hit a `BUG`. -/
def mdioNlCmdXfer (env : ReplyEnv) (findBus : List Byte → Option (MiiBus β))
    (late : BitVec 32 → Nat → Bool) (attrs : GenlAttrs) (b : β) (fuel : Nat) :
    Option (XferOutcome β) :=
  match attrs.busId, attrs.prog with
  | some busId, some prog =>
      if attrs.data || attrs.error then some ⟨-einval, Xfer.init, b, none, none⟩
      else
        match findBus (cString (busId.payload ++ busId.after)) with
        | none => some ⟨-enodev, Xfer.init, b, none, none⟩
        | some bus =>
            let opened := mdioNlOpen env Xfer.init
            if opened.1 ≠ 0 then some ⟨opened.1, opened.2, b, none, none⟩
            else
              match (mdioNlEval prog.insns bus (xferHost env (late (timeoutMs env attrs)))).run
                  fuel (.entry ⟨opened.2, 0⟩ b) with
              | .inr (.returned _ ret h b') => some (xferFinish env ret h.xfer b')
              | _ => none
  | _, _ => some ⟨-einval, Xfer.init, b, none, none⟩

/-- How a handled request can end: nothing was opened, the first reply could
not be opened, or the program ran and the reply was closed with its status. -/
theorem mdioNlCmdXfer_cases {env : ReplyEnv} {findBus : List Byte → Option (MiiBus β)}
    {late : BitVec 32 → Nat → Bool} {attrs : GenlAttrs} {b : β} {fuel : Nat}
    {out : XferOutcome β} (h : mdioNlCmdXfer env findBus late attrs b fuel = some out) :
    (out.ran = none ∧ out.xfer = Xfer.init ∧ out.err < 0) ∨
      (out.ran = none ∧ (mdioNlOpen env Xfer.init).1 ≠ 0 ∧
        out.err = (mdioNlOpen env Xfer.init).1 ∧ out.xfer = (mdioNlOpen env Xfer.init).2) ∨
      ((mdioNlOpen env Xfer.init).1 = 0 ∧ ∃ prog bus lateAt why ret h' b',
        (mdioNlEval prog bus (xferHost env lateAt)).Halts
          (.entry ⟨(mdioNlOpen env Xfer.init).2, 0⟩ b) (.returned why ret h' b') ∧
        out = xferFinish env ret h'.xfer b') := by
  unfold mdioNlCmdXfer at h
  split at h
  · rename_i busId prog hbus hprog
    split at h
    · cases h
      exact Or.inl ⟨rfl, rfl, by simp [einval]⟩
    · split at h
      · cases h
        exact Or.inl ⟨rfl, rfl, by simp [enodev]⟩
      · rename_i bus hfind
        simp only at h
        split at h
        · rename_i hopen
          cases h
          exact Or.inr (Or.inl ⟨rfl, hopen, rfl, rfl⟩)
        · rename_i hopen
          split at h
          · rename_i why ret h' b' hrun
            cases h
            exact Or.inr (Or.inr ⟨not_not.mp hopen, prog.insns, bus,
              late (timeoutMs env attrs), why, ret, h', b', ⟨fuel, hrun⟩, rfl⟩)
          · cases h
  · cases h
    exact Or.inl ⟨rfl, rfl, by simp [einval]⟩

end MdioTools.Kernel
