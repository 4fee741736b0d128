import MdioTools.Client.Assembly
import MdioTools.Client.Request
import MdioTools.System.Atomicity

/-!
# What the client sends is what the kernel accepts

The client builds its programs with truncating macros and relative jumps, and
the kernel checks them against its table of argument modes.  Every program that
a command line can send passes the check, and its jumps lead where they should.

Main results:

- Definition {lit}`Acceptable`: the policy of the kernel, jumps inside the
  program, and jumps back to the starts that have been kept for them.
- Theorem {lit}`mainExec_acceptable`: every program of every command line is
  acceptable.
-/

namespace MdioTools.System

open Kernel Client Library

/-! ## Programs with fixed jumps -/

/-- The fixed programs of the status operations, which have their jumps written
out. -/
inductive StatusProg : MdioProg → Prop
  | bus : StatusProg busStatusProg
  | phy (id) : StatusProg (phyStatusProg id)
  | mmd (id) : StatusProg (mmdStatusProg id)
  | mva (pdev) : StatusProg (mvaStatusProg pdev)

/-- A program without jumps is closed when its instructions are valid. -/
theorem closed_of_plain {prog : MdioProg} (h : ∀ i ∈ prog, Plain i) : Closed prog := by
  refine ⟨fun i hi => (h i hi).valid, fun k target hk => ?_⟩
  have hlt := jumpTarget_lt hk
  have hplain := h _ (List.getElem_mem hlt)
  rw [jumpTarget, List.getElem?_eq_getElem hlt, Option.bind_some, jumpOffset, hplain.noJump] at hk
  cases hk

/-- A program whose only jump is its last instruction, and leads back. -/
theorem closed_of_last {prog : MdioProg} {i : MdioNlInsn} (h : ∀ j ∈ prog, Plain j)
    (hi : mdioNlValidateInsn i = .ok ())
    (hback : ∀ off, jumpOffset i = some off → 0 ≤ prog.length + off.toInt + 1 ∧ off.toInt ≤ 0) :
    Closed (mdioProgPush prog i) := by
  have hprog := closed_of_plain h
  refine ⟨fun j hj => ?_, ?_⟩
  · obtain hj | rfl := mem_mdioProgPush.mp hj
    · exact hprog.valid j hj
    · exact hi
  · refine (JumpsWithin.mono hprog.jumps (by simp)).push fun target ht => ?_
    rw [jumpTarget_push_self] at ht
    obtain ⟨off, hoff, rfl⟩ := Option.map_eq_some_iff.mp ht
    have hbound := hback off hoff
    rw [mdioProgPush_length]
    omega

theorem plain_readEmit (id : BitVec 16) (reg : BitVec 32) : ∀ i ∈ readEmit id reg, Plain i := by
  intro i hi
  obtain rfl | rfl : i = _ ∨ i = _ := by simpa [readEmit] using hi
  · exact plain_read (isRi_immArg _) (isRi_immArg _) _
  · exact plain_emit (isRi_regArg _)

/-- The jumps of the bus scan stay inside. -/
theorem busStatusProg_closed : Closed busStatusProg := by
  have hread (reg : BitVec 32) := plain_read (isRi_regArg 1) (isRi_immArg reg) 0
  have hemit := plain_emit (isRi_regArg 0)
  have hsplit : busStatusProg = mdioProgPush busStatusProg.dropLast
      (insn .jne (regArg 1) (immArg 32) (immArg (-8))) := rfl
  rw [hsplit]
  refine closed_of_last ?_ rfl ?_
  · change ∀ j ∈ [_, _, _, _, _, _, _, _], Plain j
    simp only [List.forall_mem_cons]
    exact ⟨plain_add (isRi_immArg 0) (isRi_immArg 0) 1, hread 1, hemit, hread 2, hemit, hread 3,
      hemit, plain_add (isRi_regArg 1) (isRi_immArg 1) 1, fun _ h => nomatch h⟩
  · rintro off hoff
    obtain rfl : (-8 : BitVec 16) = off := Option.some.inj hoff
    decide

/-- The jumps of the MMD status stay inside. -/
theorem mmdStatusProg_closed (id : BitVec 16) : Closed (mmdStatusProg id) := by
  have hsplit : mmdStatusProg id = mdioProgPush (mmdStatusProg id).dropLast
      (insn .jne (regArg 1) (immArg 16) (immArg (-4))) := rfl
  rw [hsplit]
  refine closed_of_last ?_ rfl ?_
  · change ∀ j ∈ [_, _, _, _], Plain j
    simp only [List.forall_mem_cons]
    exact ⟨plain_add (isRi_immArg 0) (isRi_immArg 0) 1,
      plain_read (isRi_immArg _) (isRi_regArg 1) 0, plain_emit (isRi_regArg 0),
      plain_add (isRi_regArg 1) (isRi_immArg 1) 1, fun _ h => nomatch h⟩
  · rintro off hoff
    obtain rfl : (-4 : BitVec 16) = off := Option.some.inj hoff
    have hlength : (mmdStatusProg id).dropLast.length = 4 := rfl
    rw [hlength]
    decide

/-- The jumps of the status programs stay inside. -/
theorem StatusProg.closed {prog : MdioProg} (h : StatusProg prog) : Closed prog := by
  cases h with
  | bus => exact busStatusProg_closed
  | phy id =>
      refine closed_of_plain ?_
      simp only [phyStatusProg, List.forall_mem_append]
      exact ⟨⟨⟨⟨plain_readEmit _ _, plain_readEmit _ _⟩, plain_readEmit _ _⟩, plain_readEmit _ _⟩,
        plain_readEmit _ _⟩
  | mmd id => exact mmdStatusProg_closed id
  | mva pdev =>
      refine closed_of_plain ?_
      simp only [mvaStatusProg, List.forall_mem_append]
      exact ⟨⟨⟨⟨plain_readEmit _ _, plain_readEmit _ _⟩, plain_readEmit _ _⟩, plain_readEmit _ _⟩,
        plain_readEmit _ _⟩

/-! ## All programs -/

/-- The kernel accepts a program if the client sends it; its jumps lead into it
or to its end; every jump made with `GOTO` leads to exactly the index that its
function has kept for the start of the loop; and unless it is a fixed program, all its
jumps back are made so. -/
structure Acceptable (prog : MdioProg) : Prop where
  accepted : ∀ e family seq bus timeout msg,
    mdioXferRequest e family seq bus prog timeout = .ok msg → mdioNlPolicyProg (progAttr prog)
  jumps : ∀ k target, jumpTarget prog k = some target → 0 ≤ target ∧ target ≤ prog.length
  gotos : ∀ k loop, GotoSite prog k loop → jumpTarget prog k = some (loop : Int)
  backward : StatusProg prog ∨ ∀ k target, jumpTarget prog k = some target → target ≤ k →
    ∃ loop : Nat, target = loop ∧ GotoSite prog k loop

/-- What passes the length check of the client is within the bound of the
policy. -/
theorem Closed.accepted {prog : MdioProg} (h : Closed prog) {e : Endian} {family : BitVec 16}
    {seq : BitVec 32} {bus : List Byte} {timeout : BitVec 16} {msg : List Byte}
    (hmsg : mdioXferRequest e family seq bus prog timeout = .ok msg) :
    mdioNlPolicyProg (progAttr prog) := by
  refine ⟨?_, ?_⟩
  · unfold mdioXferRequest at hmsg
    split_ifs at hmsg with hlong
    simp only [bufLen, sizeofInsn, progAttr] at hlong ⊢
    omega
  · have haligned : ¬(progAttr prog).len % sizeofInsn ≠ 0 := by
      simp [progAttr, sizeofInsn]
    rw [mdioNlValidateProg, if_neg haligned]
    exact (validateInsns_ok_iff prog).mpr h.valid

/-- An object with a status sends that or an assembled program. -/
theorem statusOrCommon_assembled {dev : MdioDevice} {args : List CStr} {status prog : MdioProg}
    (h : if isStatus args then prog = status else CommonProg dev prog) (hstatus : StatusProg status)
    (hdrv : DriverPushes dev.driver) : StatusProg prog ∨ Assembled prog := by
  split_ifs at h
  · exact Or.inl (h ▸ hstatus)
  · exact Or.inr (h.assembled hdrv)

/-- The programs of an object are assembled, or fixed. -/
theorem Object.Builds.assembled {obj : Object} {id : BitVec 16} {args : List CStr} {prog : MdioProg}
    (h : obj.Builds id args prog) : StatusProg prog ∨ Assembled prog := by
  cases obj with
  | phy => exact statusOrCommon_assembled h (.phy id) (phyDriver_pushes id)
  | mmd => exact statusOrCommon_assembled h.2 (.mmd id) (phyDriver_pushes id)
  | mmdC22 => exact statusOrCommon_assembled h.2 (.mmd id) (mmdC22Driver_pushes id)
  | mva => exact statusOrCommon_assembled h (.mva _) (pphyDriver_pushes _)
  | mscc => exact Or.inr (CommonProg.assembled h (pphyDriver_pushes _))
  | mvls =>
      obtain rfl | rfl | ⟨fam, rfl⟩ | ⟨fid, op, rfl⟩ | hcommon := h
      · exact Or.inr (mvlsIdProg_assembled id)
      · exact Or.inr (mvlsLagProg_assembled id)
      · exact Or.inr (mvlsCounterProg_assembled id fam)
      · exact Or.inr (mvlsAtuProg_assembled id fid op)
      · exact Or.inr (hcommon.assembled (mvlsDriver_pushes id))
  | xrs => exact Or.inr (CommonProg.assembled h (xrsDriver_pushes id))

/-- Every program that a command line sends is acceptable to the kernel. -/
theorem mainExec_acceptable {argv : List CStr} {prog : MdioProg} (h : (mainExec argv).Sends prog) :
    Acceptable prog := by
  have hmade : StatusProg prog ∨ Assembled prog := by
    unfold mainExec at h
    split at h
    · rw [statusExec_sends h]
      exact Or.inl .bus
    · obtain ⟨_, _, _, -, -, hprog⟩ := Object.exec_sends h
      exact Object.Builds.assembled hprog
  obtain hstatus | hassembled := hmade
  · have hclosed := hstatus.closed
    exact ⟨fun _ _ _ _ _ _ => Closed.accepted hclosed, hclosed.jumps, fun _ _ => GotoSite.lands,
      Or.inl hstatus⟩
  · have hclosed := hassembled.closed
    exact ⟨fun _ _ _ _ _ _ => Closed.accepted hclosed, hclosed.jumps, fun _ _ => GotoSite.lands,
      Or.inr hassembled.backward⟩

/-- The reset of the PHY at address 1, with a masked write. -/
theorem mainExec_acceptable_reset :
    Acceptable (mdioCommonRawProg (phyDriver 1) 0 (some (0x8000, 0x7fff))) := by
  have hsend : (mainExec ["phy".toList, "1".toList, "raw".toList, "0".toList,
      "0x8000/0x7fff".toList]).Sends
        (mdioCommonRawProg (phyDriver 1) 0 (some (0x8000, 0x7fff))) :=
    Command.Sends.xfer _ xferTimeout (.finish "Raw operation failed")
  exact mainExec_acceptable hsend

end MdioTools.System
