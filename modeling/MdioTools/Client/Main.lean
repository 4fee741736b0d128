import MdioTools.Client.Exec

/-!
# The program `mdio` and what it sends

Behind the bus the command line names an object, or nothing for the status of
the bus.  What a command can send is told by inversion: the object, the device
address it has read, and one of the programs it builds for that address.

Main results:

- Definition {lit}`mainExec`: the command of a command line.
- Theorem {lit}`mdioCommonExec_sends`: the programs of the common operations.
- Theorem {lit}`Object.exec_sends`: the programs of an object.
-/

namespace MdioTools.Client

open Kernel Library

/-! ## The command line -/

/-- The program of `bus_status`: the status and identifier registers of all 32
addresses in a loop. -/
def busStatusProg : MdioProg :=
  [insn .add (immArg 0) (immArg 0) (regArg 1),
    insn .read (regArg 1) (immArg 1) (regArg 0),
    insn .emit (regArg 0) 0 0,
    insn .read (regArg 1) (immArg 2) (regArg 0),
    insn .emit (regArg 0) 0 0,
    insn .read (regArg 1) (immArg 3) (regArg 0),
    insn .emit (regArg 0) 0 0,
    insn .add (regArg 1) (immArg 1) (regArg 1),
    insn .jne (regArg 1) (immArg 32) (immArg (-8))]

/-- `main` behind the bus. -/
def mainExec (argv : List CStr) : Command :=
  match mainObject argv with
  | none => statusExec busStatusProg
  | some (obj, args) => obj.exec args

/-! ## What commands send -/

namespace Command

variable {prog prog' : MdioProg} {timeout : BitVec 16} {next : XferAnswer → Command}

@[simp]
theorem sends_exit_iff (status : Int) (msgs : List String) :
    (exit status msgs).Sends prog ↔ False :=
  ⟨fun h => (nomatch h), False.elim⟩

@[simp]
theorem sends_hang_iff : hang.Sends prog ↔ False :=
  ⟨fun h => (nomatch h), False.elim⟩

/-- A command sends its program, or what the answer leads to. -/
@[simp]
theorem sends_xfer_iff :
    (xfer prog timeout next).Sends prog' ↔ prog' = prog ∨ ∃ a, (next a).Sends prog' := by
  constructor
  · intro h
    cases h with
    | xfer => exact Or.inl rfl
    | xferNext _ _ _ a _ h => exact Or.inr ⟨a, h⟩
  · rintro (rfl | ⟨a, h⟩)
    · exact Sends.xfer _ _ _
    · exact Sends.xferNext _ _ _ a _ h

/-- A command that repeats its request sends the same program. -/
@[simp]
theorem sends_xferLoop_iff :
    (xferLoop prog timeout next).Sends prog' ↔ prog' = prog ∨ ∃ a, (next a).Sends prog' := by
  constructor
  · intro h
    cases h with
    | xferLoop => exact Or.inl rfl
    | xferLoopNext _ _ _ a _ h => exact Or.inr ⟨a, h⟩
  · rintro (rfl | ⟨a, h⟩)
    · exact Sends.xferLoop _ _ _
    · exact Sends.xferLoopNext _ _ _ a _ h

@[simp]
theorem sends_fail_iff (e : CmdError) : (fail e).Sends prog ↔ False :=
  sends_exit_iff _ _

@[simp]
theorem sends_finish_iff (failed : String) (a : XferAnswer) :
    (finish failed a).Sends prog ↔ False := by
  unfold finish
  split <;> exact sends_exit_iff _ _

end Command

/-! ## The common operations -/

/-- The programs that the common operations build for a device. -/
inductive CommonProg (dev : MdioDevice) : MdioProg → Prop
  | raw {arg reg stop} (write) (h : dev.parseReg arg false = .ok (reg, stop)) :
      CommonProg dev (mdioCommonRawProg dev.driver reg write)
  | bench {arg reg stop} (val) (h : dev.parseReg arg false = .ok (reg, stop)) :
      CommonProg dev (mdioCommonBenchProg dev.driver reg val)
  | dump {arg start stop prog} (h : dev.parseReg arg true = .ok (start, stop))
      (hprog : mdioCommonDumpProg dev.driver ⟨start, stop⟩ = some prog) : CommonProg dev prog

/-- `raw` sends a program of the common operations. -/
theorem mdioCommonRawExec_sends {dev : MdioDevice} {argv : List CStr} {prog : MdioProg}
    (h : (mdioCommonRawExec dev argv).Sends prog) : CommonProg dev prog := by
  unfold mdioCommonRawExec at h
  simp only at h
  split at h
  · simp at h
  · rename_i reg stop hreg
    split at h
    · obtain rfl : prog = _ := by simpa using h
      exact .raw none hreg
    · split at h
      · simp at h
      · rename_i write _
        split at h
        · simp at h
        · obtain rfl : prog = _ := by simpa using h
          exact .raw (some write) hreg

/-- `bench` sends a program of the common operations. -/
theorem mdioCommonBenchExec_sends {dev : MdioDevice} {argv : List CStr} {prog : MdioProg}
    (h : (mdioCommonBenchExec dev argv).Sends prog) : CommonProg dev prog := by
  unfold mdioCommonBenchExec at h
  simp only at h
  split at h
  · simp at h
  · rename_i reg stop hreg
    split at h
    · obtain rfl : prog = _ := by simpa using h
      exact .bench none hreg
    · split at h
      · simp at h
      · rename_i val _ _
        split at h
        · simp at h
        · obtain rfl : prog = _ := by simpa using h
          exact .bench (some val) hreg

/-- A dump sends a program for each argument, as long as all goes well. -/
theorem mdioCommonDumpExec_sends {dev : MdioDevice} {argv : List CStr} {prog : MdioProg}
    (h : (mdioCommonDumpExec dev argv).Sends prog) : CommonProg dev prog := by
  induction argv with
  | nil => simp [mdioCommonDumpExec] at h
  | cons arg rest ih =>
      unfold mdioCommonDumpExec at h
      split at h
      · simp at h
      · rename_i start stop hrange
        split at h
        · simp at h
        · rename_i built hbuilt
          rw [Command.sends_xfer_iff] at h
          obtain rfl | ⟨a, hnext⟩ := h
          · exact .dump hrange hbuilt
          · split at hnext
            · simp at hnext
            · exact ih hnext

/-- What the common operations send is one of their programs. -/
theorem mdioCommonExec_sends {dev : MdioDevice} {argv : List CStr} {prog : MdioProg}
    (h : (mdioCommonExec dev argv).Sends prog) : CommonProg dev prog := by
  unfold mdioCommonExec at h
  split at h
  · simp at h
  · split_ifs at h
    · exact mdioCommonRawExec_sends h
    · exact mdioCommonBenchExec_sends h
    · exact mdioCommonDumpExec_sends h
    · exact mdioCommonRawExec_sends h

/-! ## The objects -/

/-- Whether an object reads its address with Clause 45 allowed. -/
def Object.allowsC45 : Object → Bool
  | .phy => false
  | _ => true

/-- The programs that an object builds for an address and further arguments. -/
def Object.Builds (obj : Object) (id : BitVec 16) (args : List CStr) (prog : MdioProg) : Prop :=
  match obj with
  | .phy => if isStatus args then prog = phyStatusProg id else CommonProg (phyDevice id) prog
  | .mmd => id &&& mdioPhyIdC45 ≠ 0 ∧ if isStatus args then prog = mmdStatusProg id
      else CommonProg ⟨phyDriver id, mdioDeviceDfltParseReg 0xffff, 16⟩ prog
  | .mmdC22 => id &&& mdioPhyIdC45 ≠ 0 ∧ if isStatus args then prog = mmdStatusProg id
      else CommonProg ⟨mmdC22Driver id, mdioDeviceDfltParseReg 0xffff, 16⟩ prog
  | .mva => if isStatus args then prog = mvaStatusProg (mvaPphy id)
      else CommonProg ⟨pphyDriver (mvaPphy id), pphyParseReg 31 mvaPageNames, 16⟩ prog
  | .mscc => CommonProg ⟨pphyDriver (msccPphy id), pphyParseReg 31 [], 16⟩ prog
  | .mvls => prog = mvlsIdProg id ∨ prog = mvlsLagProg id ∨
      (∃ fam, prog = mvlsCounterProg id fam) ∨ (∃ fid op, prog = mvlsAtuProg id fid op) ∨
      CommonProg ⟨mvlsDriver id, mvlsParseReg, 16⟩ prog
  | .xrs => CommonProg ⟨xrsDriver id, mdioDeviceDfltParseReg (BitVec.allOnes 32), 16⟩ prog

/-- What is sent behind a device argument is sent for its id. -/
theorem withDev_sends {allowC45 : Bool} {argv : List CStr}
    {body : BitVec 16 → List CStr → Command} {prog : MdioProg}
    (h : (withDev allowC45 argv body).Sends prog) :
    ∃ arg rest id, argv = arg :: rest ∧ mdioParseDev arg allowC45 = .ok id ∧
      (body id rest).Sends prog := by
  unfold withDev at h
  split at h
  · simp at h
  · rename_i arg rest
    split at h
    · simp at h
    · rename_i id hid
      exact ⟨arg, rest, id, rfl, hid, h⟩

/-- A status sends its program. -/
theorem statusExec_sends {prog prog' : MdioProg} (h : (statusExec prog).Sends prog') :
    prog' = prog := by
  simpa [statusExec] using h

/-- A status operation, or else one of the common ones. -/
theorem statusOrCommon_sends {dev : MdioDevice} {args : List CStr} {status prog : MdioProg}
    (h : (if isStatus args then statusExec status else mdioCommonExec dev args).Sends prog) :
    if isStatus args then prog = status else CommonProg dev prog := by
  split_ifs at h ⊢
  · exact statusExec_sends h
  · exact mdioCommonExec_sends h

/-- An MMD object sends the status or a program of its driver, for an id with an MMD.
-/
theorem mmdExecWith_sends {drv : BitVec 16 → MdioDriver} {argv : List CStr} {prog : MdioProg}
    (h : (mmdExecWith drv argv).Sends prog) :
    ∃ arg rest id, argv = arg :: rest ∧ mdioParseDev arg true = .ok id ∧
      id &&& mdioPhyIdC45 ≠ 0 ∧ if isStatus rest then prog = mmdStatusProg id
        else CommonProg ⟨drv id, mdioDeviceDfltParseReg 0xffff, 16⟩ prog := by
  obtain ⟨arg, rest, id, hargv, hid, h⟩ := withDev_sends h
  refine ⟨arg, rest, id, hargv, hid, ?_⟩
  by_cases hc22 : id &&& mdioPhyIdC45 = 0
  · rw [if_pos hc22] at h
    simp at h
  · rw [if_neg hc22] at h
    exact ⟨hc22, statusOrCommon_sends h⟩

/-- An ATU command sends its program. -/
theorem atuSend_sends {id : BitVec 16} {fid : Option (BitVec 32)} {op : BitVec 8 × List String}
    {prog : MdioProg} (h : (atuSend id fid op).Sends prog) : prog = mvlsAtuProg id fid op.1 := by
  unfold atuSend at h
  rw [Command.sends_xfer_iff] at h
  obtain rfl | ⟨a, h⟩ := h
  · rfl
  · unfold Command.finish at h
    split_ifs at h <;> simp at h

/-- So does every command line of `atu`. -/
theorem mvlsAtuExec_sends {id : BitVec 16} {argv : List CStr} {prog : MdioProg}
    (h : (mvlsAtuExec id argv).Sends prog) : ∃ fid op, prog = mvlsAtuProg id fid op := by
  unfold mvlsAtuExec at h
  split at h
  · simp at h
  · split_ifs at h
    · split at h
      · exact ⟨_, _, atuSend_sends h⟩
      · split_ifs at h
        · exact ⟨_, _, atuSend_sends h⟩
        · simp only at h
          split_ifs at h
          · simp at h
          · exact ⟨_, _, atuSend_sends h⟩
    · simp at h

/-- `counter` identifies the switch and captures the counters. -/
theorem mvlsCounterExec_sends {id : BitVec 16} {argv : List CStr} {prog : MdioProg}
    (h : (mvlsCounterExec id argv).Sends prog) :
    prog = mvlsIdProg id ∨ ∃ fam, prog = mvlsCounterProg id fam := by
  unfold mvlsCounterExec at h
  simp only at h
  split at h
  · rw [Command.sends_xfer_iff] at h
    obtain rfl | ⟨a, h⟩ := h
    · exact Or.inl rfl
    · exact Or.inr ⟨_, by simpa using h⟩
  · split_ifs at h
    · rw [Command.sends_xfer_iff] at h
      obtain rfl | ⟨a, h⟩ := h
      · exact Or.inl rfl
      · exact Or.inr ⟨_, by simpa using h⟩
    · simp at h

/-- `lag` sends the program of the trunk tables. -/
theorem mvlsLagExec_sends {id : BitVec 16} {argv : List CStr} {prog : MdioProg}
    (h : (mvlsLagExec id argv).Sends prog) : prog = mvlsLagProg id := by
  unfold mvlsLagExec at h
  split at h
  · simp at h
  · simpa using h

/-- What an object sends is one of its programs for the address it has read. -/
theorem Object.exec_sends {obj : Object} {argv : List CStr} {prog : MdioProg}
    (h : (obj.exec argv).Sends prog) :
    ∃ arg rest id, argv = arg :: rest ∧ mdioParseDev arg obj.allowsC45 = .ok id ∧
      obj.Builds id rest prog := by
  cases obj with
  | phy =>
      obtain ⟨arg, rest, id, hargv, hid, h⟩ := withDev_sends h
      exact ⟨arg, rest, id, hargv, hid, statusOrCommon_sends h⟩
  | mmd => exact mmdExecWith_sends h
  | mmdC22 => exact mmdExecWith_sends h
  | mva =>
      obtain ⟨arg, rest, id, hargv, hid, h⟩ := withDev_sends h
      exact ⟨arg, rest, id, hargv, hid, statusOrCommon_sends h⟩
  | mscc =>
      obtain ⟨arg, rest, id, hargv, hid, h⟩ := withDev_sends h
      exact ⟨arg, rest, id, hargv, hid, mdioCommonExec_sends h⟩
  | xrs =>
      obtain ⟨arg, rest, id, hargv, hid, h⟩ := withDev_sends h
      refine ⟨arg, rest, id, hargv, hid, ?_⟩
      split at h
      · simp at h
      · exact mdioCommonExec_sends h
  | mvls =>
      obtain ⟨arg, rest, id, hargv, hid, h⟩ := withDev_sends h
      refine ⟨arg, rest, id, hargv, hid, ?_⟩
      split at h
      · simp at h
      · split_ifs at h
        · exact Or.inr (Or.inr (Or.inr (Or.inl (mvlsAtuExec_sends h))))
        · obtain hprog | hfam := mvlsCounterExec_sends h
          · exact Or.inl hprog
          · exact Or.inr (Or.inr (Or.inl hfam))
        · exact Or.inr (Or.inl (mvlsLagExec_sends h))
        · exact Or.inr (Or.inr (Or.inr (Or.inr (mdioCommonExec_sends h))))

end MdioTools.Client
