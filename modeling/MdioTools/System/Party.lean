import MdioTools.Kernel.CmdXfer
import MdioTools.Kernel.Vm
import MdioTools.Library.Mutex

/-!
# Requests as threads

The parties on a bus are requests, each handled by {lit}`mdio_nl_cmd_xfer`, and
single accesses, as other drivers make them.  Both are code for a thread that
shares the bus under {lit}`mdio_lock`.  One iteration of the interpreter loop is
one action; an iteration that makes no bus transaction, such as an emit with its
flushes, does not touch what is shared.

Main results:

- Definition {lit}`partyCode`: the code, with the lock calls where the source has
  them.
- Theorem {lit}`partyCode_discipline`: accesses are inside the locked section, and
  every way out of the loop goes through the unlock.
- Theorem {lit}`Party.at_reaches`: a party that runs alone does what the handler
  does.
-/

namespace MdioTools.System

open Kernel Library

variable {π α β : Type}

/-! ## The parties -/

/-- A request as it arrives: the reply socket, the clock readings against a
given time limit, and the attributes. -/
structure XferRequest where
  env : ReplyEnv
  late : BitVec 32 → Nat → Bool
  attrs : GenlAttrs

/-- The program of the request is within the policy of the family. -/
def XferRequest.Accepted (r : XferRequest) : Prop :=
  ∀ prog, r.attrs.prog = some prog → mdioNlPolicyProg prog

/-- The host of the run of a request. -/
def XferRequest.host (r : XferRequest) : Host XferHost :=
  xferHost r.env (r.late (timeoutMs r.env r.attrs))

/-- `mdiobus_read`, or `mdiobus_write` with a value: one access under the lock. -/
structure BusAccess where
  target : MdioTarget
  reg : BitVec 16
  write : Option (BitVec 16)

/-- What the access does while the lock is held. -/
def BusAccess.perform (bus : MiiBus β) (a : BusAccess) (b : β) : Int × β :=
  match a.write with
  | none => bus.read a.target a.reg b
  | some val => bus.write a.target a.reg val b

/-- A party on the bus. -/
inductive Party
  | xfer (r : XferRequest)
  | access (a : BusAccess)

/-- What a party is left with: the outcome of a request without the bus, or the
value of an access. -/
inductive PartyResult
  | xfer (out : XferOutcome Unit)
  | access (ret : Int)

/-- `mdio_find_bus` where there is one bus. -/
def findOneBus (name : List Byte) (bus : MiiBus β) (id : List Byte) : Option (MiiBus β) :=
  if id = name then some bus else none

/-- A party that has the bus for itself takes it from `b` to `b'` and is left
with a result. -/
def Party.Runs (name : List Byte) (bus : MiiBus β) (b b' : β) : Party → PartyResult → Prop
  | .xfer r, .xfer out => ∃ fuel,
      mdioNlCmdXfer r.env (findOneBus name bus) r.late r.attrs b fuel = some (out.onBus b')
  | .access a, .access ret => a.perform bus b = (ret, b')
  | _, _ => False

/-! ## The handler before the lock -/

/-- The part of `mdio_nl_cmd_xfer` in front of the call of `mdio_nl_eval`: an
error, or the program and the opened reply. -/
def XferRequest.enter (name : List Byte) (r : XferRequest) :
    Except (XferOutcome Unit) (List MdioNlInsn × Xfer) :=
  match r.attrs.busId, r.attrs.prog with
  | some busId, some prog =>
      if r.attrs.data || r.attrs.error then .error ⟨-einval, Xfer.init, (), none, none⟩
      else if cString (busId.payload ++ busId.after) ≠ name then
        .error ⟨-enodev, Xfer.init, (), none, none⟩
      else
        let opened := mdioNlOpen r.env Xfer.init
        if opened.1 ≠ 0 then .error ⟨opened.1, opened.2, (), none, none⟩
        else .ok (prog.insns, opened.2)
  | _, _ => .error ⟨-einval, Xfer.init, (), none, none⟩

/-- The handler is this part and the run of the program. -/
theorem mdioNlCmdXfer_enter (name : List Byte) (bus : MiiBus β) (r : XferRequest) (b : β)
    (fuel : Nat) :
    mdioNlCmdXfer r.env (findOneBus name bus) r.late r.attrs b fuel =
      match r.enter name with
      | .error out => some (out.onBus b)
      | .ok (prog, x) =>
          match (mdioNlEval prog bus r.host).run fuel (.entry ⟨x, 0⟩ b) with
          | .inr (.returned _ ret h b') => some (xferFinish r.env ret h.xfer b')
          | _ => none := by
  unfold mdioNlCmdXfer XferRequest.enter
  cases r.attrs.busId with
  | none => rfl
  | some busId =>
      cases r.attrs.prog with
      | none => rfl
      | some prog =>
          simp only [findOneBus]
          by_cases hextra : (r.attrs.data || r.attrs.error) = true
          · rw [if_pos hextra, if_pos hextra]
            rfl
          · rw [if_neg hextra, if_neg hextra]
            by_cases hname : cString (busId.payload ++ busId.after) = name
            · by_cases hopen : (mdioNlOpen r.env Xfer.init).1 = 0
              · rw [if_pos hname, if_neg (not_not.mpr hname)]
                simp only [if_neg (not_not.mpr hopen)]
                rfl
              · simp [hname, hopen, XferOutcome.onBus]
            · simp [hname, XferOutcome.onBus]

/-- A program that gets as far as the lock has been accepted. -/
theorem XferRequest.enter_valid {name : List Byte} {r : XferRequest} (hacc : r.Accepted)
    {prog : List MdioNlInsn} {x : Xfer} (h : r.enter name = .ok (prog, x)) :
    ∀ i ∈ prog, mdioNlValidateInsn i = .ok () := by
  unfold XferRequest.enter at h
  split at h
  · rename_i busId attr hbus hprog
    split at h
    · cases h
    · split at h
      · cases h
      · simp only at h
        split at h
        · cases h
        · cases h
          exact mdioNlValidateProg_ok (hacc attr hprog).2
  · cases h

/-- A request that gets no further has no status. -/
theorem XferRequest.enter_error_status {name : List Byte} {r : XferRequest}
    {out : XferOutcome Unit} (h : r.enter name = .error out) : out.status = none := by
  unfold XferRequest.enter at h
  split at h
  · split at h
    · cases h
      rfl
    · split at h
      · cases h
        rfl
      · simp only at h
        split at h
        · cases h
          rfl
        · cases h
  · cases h
    rfl

/-- The program that gets as far as the lock is that of the request. -/
theorem XferRequest.enter_prog {name : List Byte} {r : XferRequest} {prog : List MdioNlInsn}
    {x : Xfer} (h : r.enter name = .ok (prog, x)) {attr : ProgAttr}
    (hattr : r.attrs.prog = some attr) : prog = attr.insns := by
  unfold XferRequest.enter at h
  rw [hattr] at h
  cases hbus : r.attrs.busId with
  | none =>
      rw [hbus] at h
      cases h
  | some busId =>
      rw [hbus] at h
      simp only at h
      split at h
      · cases h
      · split at h
        · cases h
        · split at h
          · cases h
          · cases h
            rfl

/-! ## The code of a party -/

/-- Where a party is in its code.  The loop of the interpreter is kept without
the bus, which belongs to whoever holds the lock. -/
inductive PartyState
  | arrived (r : XferRequest)
  | opened (r : XferRequest) (prog : List MdioNlInsn) (x : Xfer)
  | looping (r : XferRequest) (prog : List MdioNlInsn) (s : EvalState XferHost Unit)
  | atExit (r : XferRequest) (why : EvalExit) (ret : Int) (h : XferHost)
  | closing (r : XferRequest) (ret : Int) (h : XferHost)
  | bug
  | refused (out : XferOutcome Unit)
  | asking (a : BusAccess)
  | holding (a : BusAccess)
  | answered (ret : Int)
  | done (res : PartyResult)

/-- The start of a party. -/
def Party.start : Party → PartyState
  | .xfer r => .arrived r
  | .access a => .asking a

/-- The result of a party that is done or was refused. -/
def PartyState.result : PartyState → Option PartyResult
  | .refused out => some (.xfer out)
  | .done res => some res
  | _ => none

/-- Where an iteration of the loop leads, with the bus split off. -/
def XferRequest.settle (r : XferRequest) (prog : List MdioNlInsn) (b : β) :
    EvalState XferHost β ⊕ EvalResult XferHost β → PartyState × β
  | .inl s => (.looping r prog (s.withBus ()), s.bus)
  | .inr (.returned why ret h b') => (.atExit r why ret h, b')
  | .inr .bug => (.bug, b)

/-- What a party does next.  A request takes the lock in front of the loop and
gives it back at the label `exit`, where every way out of the loop leads. -/
def partyCode (name : List Byte) (bus : MiiBus β) : PartyState → Act PartyState β
  | .arrived r =>
      match r.enter name with
      | .error out => .silent (.refused out)
      | .ok (prog, x) => .silent (.opened r prog x)
  | .opened r prog x => .lock (.looping r prog (.entry ⟨x, 0⟩ ()))
  | .looping r prog s =>
      if s.transacts prog r.host then
        .access fun b => r.settle prog b (evalStep prog bus r.host (s.withBus b))
      else .silent (r.settle prog () (evalStep prog nullBus r.host s)).1
  | .atExit r _ ret h => .unlock (.closing r ret h)
  | .closing r ret h => .silent (.done (.xfer (xferFinish r.env ret h.xfer ())))
  | .asking a => .lock (.holding a)
  | .holding a => .access fun b => (.answered (a.perform bus b).1, (a.perform bus b).2)
  | .answered ret => .unlock (.done (.access ret))
  | .refused _ | .done _ | .bug => .halt

/-! ## The discipline -/

/-- The phase of a state: in front of the lock, between the calls, behind the
unlock. -/
def PartyState.phase : PartyState → Phase
  | .arrived _ | .opened .. | .refused _ | .asking _ => .before
  | .looping .. | .atExit .. | .bug | .holding _ | .answered _ => .inside
  | .closing .. | .done _ => .after

/-- The program of a request is accepted, and no `BUG` has fired. -/
def PartyState.Sound : PartyState → Prop
  | .arrived r => r.Accepted
  | .opened _ prog _ | .looping _ prog _ => ∀ i ∈ prog, mdioNlValidateInsn i = .ok ()
  | .bug => False
  | _ => True

/-- Where an iteration on an accepted program leads is inside the section and
sound. -/
theorem XferRequest.settle_sound (r : XferRequest) {prog : List MdioNlInsn}
    (hvalid : ∀ i ∈ prog, mdioNlValidateInsn i = .ok ()) (bus : MiiBus β)
    (s : EvalState XferHost β) (b : β) :
    (r.settle prog b (evalStep prog bus r.host s)).1.Sound ∧
      (r.settle prog b (evalStep prog bus r.host s)).1.phase = .inside := by
  have hbug := evalStep_ne_bug hvalid bus r.host s
  cases hstep : evalStep prog bus r.host s with
  | inl s' => exact ⟨hvalid, rfl⟩
  | inr res =>
      cases res with
      | returned why ret h b' => exact ⟨trivial, rfl⟩
      | bug => exact absurd hstep hbug

/-- The parties keep to the discipline of the lock. -/
theorem partyCode_discipline (name : List Byte) (bus : MiiBus β) :
    Discipline (partyCode name bus) PartyState.phase PartyState.Sound := by
  refine Discipline.of_keeps fun l hsound => ?_
  cases l with
  | arrived r =>
      simp only [partyCode]
      cases henter : r.enter name with
      | error out => exact ⟨trivial, rfl⟩
      | ok entered => exact ⟨r.enter_valid hsound henter, rfl⟩
  | opened r prog x => exact ⟨hsound, rfl, rfl⟩
  | looping r prog s =>
      simp only [partyCode]
      split
      · exact ⟨rfl, fun b => r.settle_sound hsound bus (s.withBus b) b⟩
      · exact r.settle_sound hsound nullBus s ()
  | atExit r why ret h => exact ⟨trivial, rfl, rfl⟩
  | closing r ret h => exact ⟨trivial, rfl⟩
  | bug => exact hsound.elim
  | refused out => exact fun h => by cases h
  | asking a => exact ⟨trivial, rfl, rfl⟩
  | holding a => exact ⟨rfl, fun b => ⟨trivial, rfl⟩⟩
  | answered ret => exact ⟨trivial, rfl, rfl⟩
  | done res => exact fun h => by cases h

/-- A party has a result exactly when it has halted. -/
theorem partyCode_halt_iff (name : List Byte) (bus : MiiBus β) {l : PartyState} (h : l.Sound) :
    partyCode name bus l = .halt ↔ ∃ res, l.result = some res := by
  cases l with
  | arrived r =>
      refine iff_of_false (fun hcode => ?_) (by simp [PartyState.result])
      simp only [partyCode] at hcode
      split at hcode <;> cases hcode
  | looping r prog s =>
      refine iff_of_false (fun hcode => ?_) (by simp [PartyState.result])
      simp only [partyCode] at hcode
      split at hcode <;> cases hcode
  | bug => exact h.elim
  | _ => simp [partyCode, PartyState.result]

/-! ## A party on its own -/

/-- A party started at `b` with the bus for itself may be at this place, with
the bus at `b'`. -/
def Party.At (p : Party) (name : List Byte) (bus : MiiBus β) (b b' : β) : PartyState → Prop
  | .arrived r => p = .xfer r ∧ b' = b
  | .opened r prog x => p = .xfer r ∧ r.enter name = .ok (prog, x) ∧ b' = b
  | .looping r prog s => p = .xfer r ∧ ∃ x, r.enter name = .ok (prog, x) ∧
      (mdioNlEval prog bus r.host).Reaches (.entry ⟨x, 0⟩ b) (s.withBus b')
  | .atExit r why ret h => p = .xfer r ∧ ∃ prog x, r.enter name = .ok (prog, x) ∧
      (mdioNlEval prog bus r.host).Halts (.entry ⟨x, 0⟩ b) (.returned why ret h b')
  | .closing r ret h => p = .xfer r ∧ ∃ prog x why, r.enter name = .ok (prog, x) ∧
      (mdioNlEval prog bus r.host).Halts (.entry ⟨x, 0⟩ b) (.returned why ret h b')
  | .bug => True
  | .refused out => p.Runs name bus b b' (.xfer out)
  | .asking a => p = .access a ∧ b' = b
  | .holding a => p = .access a ∧ b' = b
  | .answered ret => p.Runs name bus b b' (.access ret)
  | .done res => p.Runs name bus b b' res

/-- Where an iteration leads is where the run of the interpreter leads. -/
theorem Party.at_settle {name : List Byte} {bus : MiiBus β} {r : XferRequest}
    {prog : List MdioNlInsn} {x : Xfer} {b b' : β} {s : EvalState XferHost Unit}
    (henter : r.enter name = .ok (prog, x))
    (hreach : (mdioNlEval prog bus r.host).Reaches (.entry ⟨x, 0⟩ b) (s.withBus b')) :
    (Party.xfer r).At name bus b (r.settle prog b' (evalStep prog bus r.host (s.withBus b'))).2
      (r.settle prog b' (evalStep prog bus r.host (s.withBus b'))).1 := by
  cases hstep : evalStep prog bus r.host (s.withBus b') with
  | inl s' => exact ⟨rfl, x, henter, hreach.trans (Machine.Reaches.single hstep)⟩
  | inr res =>
      cases res with
      | returned why ret h b'' =>
          exact ⟨rfl, prog, x, henter, hreach.halts (Machine.Halts.single hstep)⟩
      | bug => trivial

/-- An iteration that makes no transaction leads to the same place with and
without the bus. -/
theorem XferRequest.settle_withBus {r : XferRequest} {prog : List MdioNlInsn}
    {s : EvalState XferHost Unit} (h : s.transacts prog r.host = false) (bus : MiiBus β) (b : β) :
    r.settle prog b (evalStep prog bus r.host (s.withBus b)) =
      ((r.settle prog () (evalStep prog nullBus r.host s)).1, b) := by
  rw [evalStep_withBus h bus nullBus b]
  cases evalStep prog nullBus r.host s with
  | inl s' => rfl
  | inr res => cases res <;> rfl

/-- One step of a party on its own. -/
theorem Party.at_step {p : Party} {name : List Byte} {bus : MiiBus β} {b : β}
    {l l' : PartyState × β} (hat : p.At name bus b l.2 l.1)
    (hstep : (solo (partyCode name bus)).step l = .inl l') : p.At name bus b l'.2 l'.1 := by
  obtain ⟨l, b'⟩ := l
  simp only [solo, soloStep] at hstep
  cases l with
  | arrived r =>
      obtain ⟨rfl, rfl⟩ := hat
      simp only [partyCode] at hstep
      cases henter : r.enter name with
      | error out =>
          rw [henter] at hstep
          cases hstep
          refine ⟨0, ?_⟩
          rw [mdioNlCmdXfer_enter, henter]
      | ok entered =>
          rw [henter] at hstep
          cases hstep
          exact ⟨rfl, henter, rfl⟩
  | opened r prog x =>
      obtain ⟨rfl, henter, rfl⟩ := hat
      cases hstep
      exact ⟨rfl, x, henter, Machine.Reaches.refl _⟩
  | looping r prog s =>
      obtain ⟨rfl, x, henter, hreach⟩ := hat
      have hsettle := Party.at_settle henter hreach
      simp only [partyCode] at hstep
      cases htransacts : s.transacts prog r.host with
      | true =>
          rw [htransacts] at hstep
          cases hstep
          exact hsettle
      | false =>
          rw [htransacts] at hstep
          cases hstep
          rwa [XferRequest.settle_withBus htransacts] at hsettle
  | atExit r why ret h =>
      obtain ⟨rfl, prog, x, henter, hhalts⟩ := hat
      cases hstep
      exact ⟨rfl, prog, x, why, henter, hhalts⟩
  | closing r ret h =>
      obtain ⟨rfl, prog, x, why, henter, n, hn⟩ := hat
      cases hstep
      refine ⟨n, ?_⟩
      rw [mdioNlCmdXfer_enter, henter]
      simp only [hn]
      rfl
  | asking a =>
      cases hstep
      exact hat
  | holding a =>
      obtain ⟨rfl, rfl⟩ := hat
      cases hstep
      exact rfl
  | answered ret =>
      cases hstep
      exact hat
  | _ => cases hstep

/-- A party on its own, at whatever place it reaches. -/
theorem Party.at_reaches {p : Party} {name : List Byte} {bus : MiiBus β} {b b' : β}
    {l : PartyState} (h : (solo (partyCode name bus)).Reaches (p.start, b) (l, b')) :
    p.At name bus b b' l := by
  refine h.invariant (I := fun l => p.At name bus b l.2 l.1)
    (fun l l' hat hstep => Party.at_step hat hstep) ?_
  cases p with
  | xfer r => exact ⟨rfl, rfl⟩
  | access a => exact ⟨rfl, rfl⟩

/-- A party on its own that has a result has run the handler. -/
theorem Party.runs_of_reaches {p : Party} {name : List Byte} {bus : MiiBus β} {b b' : β}
    {l : PartyState} {res : PartyResult} (hres : l.result = some res)
    (h : (solo (partyCode name bus)).Reaches (p.start, b) (l, b')) :
    p.Runs name bus b b' res := by
  have hat := Party.at_reaches h
  cases l with
  | refused out =>
      cases hres
      exact hat
  | done res' =>
      cases hres
      exact hat
  | _ => cases hres

end MdioTools.System
