import MdioTools.Kernel.Fragment
import MdioTools.System.Multipart
import MdioTools.System.RequestTrip

/-!
# A call of `mdio_xfer_timeout`

The client writes a request, the kernel module handles it, and the client reads
what comes back until it is told that the reply is over.  Together the two sides
are a procedure call: the program runs on the bus of the given name, and the
callback of the operation gets what it has emitted.

Main results:

- Definition {lit}`mdioXferTimeout`: the call, with both sides of the socket.
- Theorem {lit}`mdioNlCmdXfer_eq`: the handler runs the program on a host that
  gathers words.
- Theorem {lit}`mdioXferTimeout_rpc`: the call is the run of the program followed
  by one call of the callback, or it fails and nothing is touched.
-/

namespace MdioTools.System

open Library Kernel Client

/-! ## Runs that gather words -/

/-- A host that gathers the emitted words.  The `n`-th clock reading is past the
deadline if `late n`. -/
def wordsHost (late : Nat → Bool) : Host (Words × Nat) where
  expired h := (late h.2, (h.1, h.2 + 1))
  emit datum h := (0, (h.1 ++ [datum], h.2))

variable {env : ReplyEnv} {β σ : Type}

/-- The reply into which the gathered words have been put. -/
def replyHost (env : ReplyEnv) (h : Words × Nat) : XferHost :=
  ⟨emitAll env h.1 (mdioNlOpen env Xfer.init).2, h.2⟩

theorem replyHost_emit (henv : Reliable env) (late : Nat → Bool) (datum : BitVec 32)
    (h : Words × Nat) :
    (xferHost env late).emit datum (replyHost env h) =
      (((wordsHost late).emit datum h).1, replyHost env ((wordsHost late).emit datum h).2) := by
  obtain ⟨full, cur, hemitted⟩ := emitAll_chunks henv h.1
  have hok := (hemitted.emit henv datum).1
  simp only [xferHost, replyHost, wordsHost, hok]
  simp [emitAll]

/-- As long as no call fails, a run fills the reply with the words it gathers. -/
theorem mdioNlEval_reply (henv : Reliable env) (late : Nat → Bool) (prog : List MdioNlInsn)
    (bus : MiiBus β) (b : β) (fuel : Nat) :
    (mdioNlEval prog bus (xferHost env late)).run fuel
        (.entry ⟨(mdioNlOpen env Xfer.init).2, 0⟩ b) =
      ((mdioNlEval prog bus (wordsHost late)).run fuel (.entry ([], 0) b)).map
        (·.mapHost (replyHost env)) (·.mapHost (replyHost env)) :=
  mdioNlEval_mapHost (replyHost env) (replyHost_emit henv late) (fun _ => rfl) prog bus fuel
    (.entry ([], 0) b)

/-- The bus functions return C integers. -/
structure IntBus (bus : MiiBus β) : Prop where
  read : ∀ t reg b, -2 ^ 31 ≤ (bus.read t reg b).1
  write : ∀ t reg val b, -2 ^ 31 ≤ (bus.write t reg val b).1

/-- The status is 0 while a run goes on, and when it ends 0 or an error. -/
def StatusOk {π : Type} : EvalState π β ⊕ EvalResult π β → Prop
  | .inl s => s.ret = 0
  | .inr (.returned _ ret _ _) => -2 ^ 31 ≤ ret ∧ ret ≤ 0
  | .inr .bug => True

/-- An instruction ends a run with 0 or an error. -/
theorem evalInsn_status {bus : MiiBus β} (hbus : IntBus bus) {late : Nat → Bool}
    {insn : MdioNlInsn} {s : EvalState (Words × Nat) β} (hs : s.ret = 0)
    {r : EvalState (Words × Nat) β ⊕ EvalResult (Words × Nat) β}
    (h : evalInsn bus (wordsHost late) insn s = some r) : StatusOk r := by
  cases evalInsn_cases h with
  | illegal => exact ⟨by decide, by decide⟩
  | readFailed _ _ _ hneg => exact ⟨hbus.read _ _ _, Int.le_of_lt hneg⟩
  | writeFailed _ _ _ _ hneg => exact ⟨hbus.write _ _ _ _, Int.le_of_lt hneg⟩
  | emitFailed _ _ hneg => exact absurd hneg (Int.lt_irrefl 0)
  | read | write | emit => rfl
  | alu | jump | stay => exact hs

/-- A step ends a run with 0 or an error. -/
theorem evalStep_status {bus : MiiBus β} (hbus : IntBus bus) (late : Nat → Bool)
    (prog : List MdioNlInsn) {s : EvalState (Words × Nat) β} (hs : s.ret = 0) :
    StatusOk (evalStep prog bus (wordsHost late) s) := by
  unfold evalStep
  by_cases hpc : s.pc.toNat < prog.length
  · rw [dif_pos hpc]
    simp only
    split
    · exact ⟨by decide, by decide⟩
    · have hs' : ({ s with host := ((wordsHost late).expired s.host).2 } :
        EvalState (Words × Nat) β).ret = 0 := hs
      cases hinsn : evalInsn bus (wordsHost late) prog[s.pc.toNat]
        { s with host := ((wordsHost late).expired s.host).2 } with
      | none => trivial
      | some r => exact evalInsn_status hbus hs' hinsn
  · rw [dif_neg hpc]
    exact ⟨by rw [hs]; decide, Int.le_of_eq hs⟩

/-- The status of a run is 0 or an error. -/
theorem mdioNlEval_status {bus : MiiBus β} (hbus : IntBus bus) {late : Nat → Bool}
    {prog : List MdioNlInsn} {b b' : β} {fuel : Nat} {why : EvalExit} {ret : Int} {h : Words × Nat}
    (hrun : (mdioNlEval prog bus (wordsHost late)).run fuel (.entry ([], 0) b) =
      .inr (.returned why ret h b')) : -2 ^ 31 ≤ ret ∧ ret ≤ 0 :=
  (Machine.run_induct (m := mdioNlEval prog bus (wordsHost late)) (I := fun s => s.ret = 0)
    (Q := fun r => StatusOk (.inr r))
    (fun s s' hs (hstep : evalStep prog bus (wordsHost late) s = .inl s') =>
      show StatusOk (.inl s') from hstep ▸ evalStep_status hbus late prog hs)
    (fun s r hs (hstep : evalStep prog bus (wordsHost late) s = .inr r) =>
      hstep ▸ evalStep_status hbus late prog hs)
    (s := .entry ([], 0) b) rfl fuel).2 _ hrun

/-! ## The handler -/

/-- The run of a program for a request that has got as far as the bus. -/
def runWords (bus : MiiBus β) (late : Nat → Bool) (prog : List MdioNlInsn) (b : β) (fuel : Nat) :
    Option (Int × Words × β) :=
  match (mdioNlEval prog bus (wordsHost late)).run fuel (.entry ([], 0) b) with
  | .inr (.returned _ ret h b') => some (ret, h.1, b')
  | _ => none

/-- Words that are gathered are those of a run that returns. -/
theorem runWords_eq_some {bus : MiiBus β} {late : Nat → Bool} {prog : List MdioNlInsn} {b b' : β}
    {fuel : Nat} {ret : Int} {ws : Words}
    (h : runWords bus late prog b fuel = some (ret, ws, b')) :
    ∃ why ticks, (mdioNlEval prog bus (wordsHost late)).run fuel (.entry ([], 0) b) =
      .inr (.returned why ret (ws, ticks) b') := by
  unfold runWords at h
  split at h
  · rename_i why ret' h' b'' hrun
    simp only [Option.some.injEq, Prod.mk.injEq] at h
    obtain ⟨rfl, rfl, rfl⟩ := h
    exact ⟨why, h'.2, hrun⟩
  · cases h

/-- The handler runs the program, and closes the reply with the words and the
status of the run. -/
theorem mdioNlCmdXfer_eq (henv : Reliable env) {findBus : List Byte → Option (MiiBus β)}
    (late : BitVec 32 → Nat → Bool) {attrs : GenlAttrs} {attr : NlAttr} {prog : ProgAttr}
    {bus : MiiBus β} (hlooks : Looks attrs attr) (hprog : attrs.prog = some prog)
    (hfind : findBus (cString (attr.payload ++ attr.after)) = some bus) (b : β) (fuel : Nat) :
    (mdioNlCmdXfer env findBus late attrs b fuel).map (fun out => (out.err, out.xfer.sent, out.bus)) =
      (runWords bus (late (timeoutMs env attrs)) prog.insns b fuel).map fun r =>
        (0, replyStream env r.2.1 r.1, r.2.2) := by
  have hopen : ¬(mdioNlOpen env Xfer.init).1 ≠ 0 :=
    not_not.mpr (mdioNlOpen_holds henv Xfer.init).1
  simp only [mdioNlCmdXfer, hlooks.busId, hprog, hlooks.data, hlooks.error, Bool.or_self,
    Bool.false_eq_true, if_false, hfind, if_neg hopen, mdioNlEval_reply henv, runWords]
  cases (mdioNlEval prog.insns bus (wordsHost (late (timeoutMs env attrs)))).run fuel
      (.entry ([], 0) b) with
  | inl s => rfl
  | inr r =>
      cases r with
      | bug => rfl
      | returned why ret h b' =>
          obtain ⟨full, cur, hemitted⟩ := emitAll_chunks henv h.1
          have herr := (hemitted.close henv ret).1
          simp only [Sum.map_inr, EvalResult.mapHost, xferFinish, replyHost, herr, Option.map_some]
          rfl

/-! ## One message -/

/-- The words and the status of a reply fit one message, on both sides. -/
def OneMessage (env : ReplyEnv) (ws : Words) (e : Int) : Prop :=
  40 + 4 * ws.length + (errorBytes env e).length ≤ min env.capacity bufLen

/-- The close finds room for all that it puts. -/
theorem Emitted.close_room (henv : Reliable env) {ws : Words} {x : Xfer} {full : List Words}
    {cur : Words} (h : Emitted env ws x full cur) {e : Int}
    (hroom : 40 + 4 * cur.length + (errorBytes env e).length ≤ env.capacity) :
    (mdioNlClose env true e x).2.sent = full.map (plainMsg env) ++ [finalMsg env cur e] := by
  obtain ⟨hnest, hnestSent⟩ := h.holds.nestEnd
  rw [wordBytes_length] at hnest
  rw [h.sent] at hnestSent
  rw [mdioNlClose_true]
  by_cases he : e = 0
  · subst he
    obtain ⟨hend, hendSent⟩ := hnest.msgEnd
    rw [hnestSent] at hendSent
    rw [wordBytes_length] at hend
    obtain ⟨-, hsent⟩ := hend.closeDone henv (by simp [errorBytes] at hroom ⊢; omega)
    simp only [closeStage, ne_eq, not_true_eq_false, decide_false, Bool.false_eq_true, if_false]
    rw [closeTail, hsent, hendSent]
    simp [finalMsg, errorBytes]
  · have herror : (errorBytes env e).length = 8 := by rw [errorBytes_length, if_neg he]
    obtain ⟨hput, hholds, hsent⟩ := hnest.put henv .nlaPut (errorAttr env e) (by simp; omega)
    obtain ⟨hend, hendSent⟩ := hholds.msgEnd
    obtain ⟨-, hsent'⟩ := hend.closeDone henv (by simp; omega)
    simp only [closeStage, ne_eq, he, not_false_eq_true, decide_true, if_true, hput,
      not_true_eq_false, if_false]
    rw [closeTail, hsent', hendSent, hsent, hnestSent]
    simp [finalMsg, errorBytes, he, Nat.add_assoc]

/-- A reply that fits one message is that message. -/
theorem replyStream_one (henv : Reliable env) {ws : Words} {e : Int} (h : OneMessage env ws e) :
    replyStream env ws e = [finalMsg env ws e] := by
  obtain ⟨full, cur, hemitted⟩ := emitAll_chunks henv ws
  have hcap : 40 + 4 * ws.length + (errorBytes env e).length ≤ env.capacity :=
    Nat.le_trans h (Nat.min_le_left _ _)
  have hlen := hemitted.length
  obtain rfl : full = [] := by
    cases full with
    | nil => rfl
    | cons c full =>
        have hpos := hemitted.cur_pos (by
          have := henv.room
          rw [hlen, List.length_cons, Nat.succ_mul, wordsPerMsg]
          omega)
        rw [List.length_cons, Nat.succ_mul, wordsPerMsg] at hlen
        omega
  obtain rfl : ws = cur := hemitted.words
  rw [replyStream, hemitted.close_room henv hcap]
  rfl

/-- The client's walk over it: one call of the callback, behind which the reply is
over, and what is still to come is not read. -/
theorem msgRecv_one (hfam : ¬env.family < nlmsgMinType) (cb : OpCallback σ) {ws : Words} {e : Int}
    (hmin : -2 ^ 31 ≤ e) (hmax : e ≤ 0) (hfits : OneMessage env ws e) (rest : List (List Byte))
    (arg : σ) :
    msgRecv env.endian cb (finalMsg env ws e :: rest) ⟨0, arg, []⟩ =
      some (if (cb ws e arg).1 = 0 then .stop else .error, ⟨e, (cb ws e arg).2, [(ws, e)]⟩) := by
  have hlen : (finalMsg env ws e).length ≤ bufLen := by
    rw [finalMsg_length]
    exact Nat.le_trans hfits (Nat.min_le_right _ _)
  have hws : ws.length ≤ 16382 := by
    rw [finalMsg_length, bufLen] at hlen
    omega
  have herr : (if e = 0 then (0 : Int) else e) = e := by
    split
    · rename_i he
      exact he.symm
    · rfl
  have hdone : ∀ y : XferData σ, handleMsgs env.endian cb [⟨nlmsgDone, []⟩] y = (.stop, y) := by
    intro y
    have hmin : ¬¬(nlmsgDone < nlmsgMinType) := by decide
    rw [handleMsgs, mnlHandle, if_neg hmin, if_pos rfl]
    rfl
  rw [msgRecv, if_neg (Nat.not_lt.mpr hlen), mnlCbRun_eq cb (nlMsgs_finalMsg hws e), handleMsgs,
    mnlHandle_generic cb _ hfam, mdioXferCbFor_genMsg env cb hws hmin hmax]
  simp only [hdone, XferData.call, herr]
  by_cases hcb : (cb ws e arg).1 = 0
  · simp [hcb]
  · simp [hcb]

/-! ## Both sides -/

/-- What a client runs on: the kernel module with its buses and its clock, and
generic netlink, which refuses messages that are against the policy and
acknowledges the others behind their replies. -/
structure MdioSystem (β : Type) where
  env : ReplyEnv
  findBus : List Byte → Option (MiiBus β)
  late : BitVec 32 → Nat → Bool
  refusal : Int
  ack : Int → List Byte
  behind : List Byte

/-- No call fails for lack of memory, and an acknowledgement is a message of its
type with the error at its start. -/
structure MdioSystem.Works (sys : MdioSystem β) : Prop where
  reliable : Reliable sys.env
  refusal_neg : -2 ^ 31 ≤ sys.refusal ∧ sys.refusal < 0
  ack_msgs : ∀ err, ∃ more, nlMsgs sys.env.endian (sys.ack err) =
    some [⟨nlmsgError, sys.env.endian.put32 (BitVec.ofInt 32 err) ++ more⟩]

/-- The buffers that come back for a message, and the bus. -/
def MdioSystem.answer (sys : MdioSystem β) (msg : List Byte) (b : β) (fuel : Nat) :
    Option (List (List Byte) × β) :=
  (genlRcvMsg sys.env sys.refusal sys.findBus sys.late (msg ++ sys.behind) b fuel).map fun out =>
    (out.xfer.sent ++ [sys.ack out.err], out.bus)

/-- `mdio_xfer_timeout`: the return value, what the callback has been called with,
and the bus. -/
def mdioXferTimeout (sys : MdioSystem β) (seq : BitVec 32) (name : List Byte) (prog : MdioProg)
    (cb : OpCallback σ) (arg : σ) (timeout : BitVec 16) (b : β) (fuel : Nat) :
    Option (Int × XferData σ × β) :=
  match mdioXferRequest sys.env.endian sys.env.family seq name prog timeout with
  | .error err => some (err, ⟨0, arg, []⟩, b)
  | .ok msg => (sys.answer msg b fuel).bind fun r =>
      (mdioXferReceive sys.env.endian cb arg r.1).map fun x => (x.1, x.2, r.2)

/-- A request that the client sends and the policy lets through: the name and the
program fit the buffer. -/
structure Admissible (name : List Byte) (prog : MdioProg) (timeout : BitVec 16) : Prop where
  noNul : 0 ∉ name
  short : name.length ≤ miiBusIdSize
  fits : 36 + align4 (name.length + 1) + 8 * prog.length ≤ bufLen
  valid : ∀ i ∈ prog, mdioNlValidateInsn i = .ok ()
  limit : timeout.toNat ≤ 10 * 1000

/-- What a call comes to when its callback gets words and a status: the status if
there is one, and else whether the callback fails. -/
def delivered (cb : OpCallback σ) (arg : σ) (ret : Int) (ws : Words) : Int × XferData σ :=
  (if ret ≠ 0 then ret else if (cb ws ret arg).1 = 0 then 0 else -1,
    ⟨ret, (cb ws ret arg).2, [(ws, ret)]⟩)

/-! ## A system -/

/-- A little-endian host with one bus, on which no deadline passes. -/
def exampleSystem (bus : MiiBus β) : MdioSystem β where
  env := exampleEnv []
  findBus name := if name = [0x66] then some bus else none
  late _ _ := false
  refusal := -einval
  ack err := nlHeader .little 36 nlmsgError 0 1 1 ++
    (Endian.little.put32 (BitVec.ofInt 32 err) ++ List.replicate 16 0)
  behind := []

/-- The example system works over any bus. -/
theorem exampleSystem_works (bus : MiiBus β) : (exampleSystem bus).Works where
  reliable := exampleEnv_reliable
  refusal_neg := by
    show -2 ^ 31 ≤ -einval ∧ -einval < 0
    decide
  ack_msgs err := by
    refine ⟨List.replicate 16 0, ?_⟩
    have hlen : (36 : BitVec 32).toNat =
        16 + (Endian.little.put32 (BitVec.ofInt 32 err) ++ List.replicate 16 0).length := by simp
    have hread := nlMsgs_header .little nlmsgError 0 1 1 [] hlen (by simp)
    rw [List.append_nil, nlMsgs_nil] at hread
    exact hread

/-! ## A call -/

section Call

variable {sys : MdioSystem β} {name : List Byte} {prog : MdioProg} {timeout : BitVec 16}

/-- A request that is admissible fits its buffer. -/
theorem Admissible.request (h : Admissible name prog timeout) (e : Endian) (family : BitVec 16)
    (seq : BitVec 32) :
    mdioXferRequest e family seq name prog timeout =
        .ok (requestBytes e family seq name prog timeout) ∧
      (requestBytes e family seq name prog timeout).length ≤ bufLen := by
  have hfits := h.fits
  refine ⟨if_neg ?_, by rwa [requestBytes_length]⟩
  simp only [bufLen, sizeofInsn] at hfits ⊢
  omega

/-- The kernel module gets an admissible request as it has been made. -/
theorem Admissible.answer (hsys : sys.Works) (h : Admissible name prog timeout)
    {bus : MiiBus β} (hfind : sys.findBus name = some bus) (seq : BitVec 32) (b : β)
    (fuel : Nat) :
    sys.answer (requestBytes sys.env.endian sys.env.family seq name prog timeout) b fuel =
      (runWords bus (sys.late (limitRead sys.env.endian timeout)) prog b fuel).map fun r =>
        (replyStream sys.env r.2.1 r.1 ++ [sys.ack 0], r.2.2) := by
  have hcarried := requestBytes_carries sys.env seq name prog timeout sys.behind h.noNul
    (h.request _ _ _).2
  obtain ⟨attr, hlooks, hname⟩ := hcarried.lookup
  obtain ⟨attr', hprog, hinsns⟩ := hcarried.insns
  have hrun := mdioNlCmdXfer_eq hsys.reliable sys.late hlooks hprog (by rw [hname]; exact hfind)
    b fuel
  have hwords : ∀ late, runWords bus late attr'.insns b fuel = runWords bus late prog b fuel := by
    intro late
    rw [hinsns, runWords, runWords, mdioNlEval_unreserved]
  rw [hcarried.limit, hwords] at hrun
  rw [MdioSystem.answer, genlRcvMsg, if_pos (hcarried.policy.mpr ⟨h.short, h.limit, h.valid⟩)]
  have hmap := congrArg (Option.map fun t : Int × List (List Byte) × β =>
    (t.2.1 ++ [sys.ack t.1], t.2.2)) hrun
  simpa only [Option.map_map, Function.comp_def] using hmap

/-- A call runs the program on the bus of its name, and then calls the callback,
once, with all words and the status. -/
theorem mdioXferTimeout_eq (hsys : sys.Works) (seq : BitVec 32) (hadm : Admissible name prog timeout)
    {bus : MiiBus β} (hfind : sys.findBus name = some bus) (hint : IntBus bus) (cb : OpCallback σ)
    (arg : σ) (b : β) (fuel : Nat)
    (hone : ∀ ret ws b', runWords bus (sys.late (limitRead sys.env.endian timeout)) prog b fuel =
      some (ret, ws, b') → OneMessage sys.env ws ret) :
    mdioXferTimeout sys seq name prog cb arg timeout b fuel =
      (runWords bus (sys.late (limitRead sys.env.endian timeout)) prog b fuel).map fun r =>
        ((delivered cb arg r.1 r.2.1).1, (delivered cb arg r.1 r.2.1).2, r.2.2) := by
  simp only [mdioXferTimeout, (hadm.request _ _ _).1, hadm.answer hsys hfind]
  cases hrun : runWords bus (sys.late (limitRead sys.env.endian timeout)) prog b fuel with
  | none => rfl
  | some r =>
      obtain ⟨ret, ws, b'⟩ := r
      have hmsg := hone ret ws b' hrun
      obtain ⟨why, ticks, hend⟩ := runWords_eq_some hrun
      obtain ⟨hmin, hmax⟩ := mdioNlEval_status hint hend
      simp only [Option.map_some, Option.bind_some, mdioXferReceive,
        replyStream_one hsys.reliable hmsg, List.singleton_append,
        msgRecv_one hsys.reliable.family cb hmin hmax hmsg]
      by_cases hcb : (cb ws ret arg).1 = 0 <;> simp [delivered, hcb]

/-- A message of its own that says that the request has failed. -/
theorem mdioXferReceive_ack (hsys : sys.Works) (cb : OpCallback σ) (arg : σ) {err : Int}
    (hmin : -2 ^ 31 ≤ err) (hneg : err < 0) :
    mdioXferReceive sys.env.endian cb arg [sys.ack err] = some (-1, ⟨0, arg, []⟩) := by
  obtain ⟨more, hmsgs⟩ := hsys.ack_msgs err
  have hnz : BitVec.ofInt 32 err ≠ 0 := by
    intro h
    have hint := congrArg BitVec.toInt h
    rw [BitVec.toInt_ofInt, Int.bmod_eq_of_le (by omega) (by omega)] at hint
    simp at hint
    omega
  have hhandle : mnlCbRun sys.env.endian cb (sys.ack err) ⟨0, arg, []⟩ =
      (.error, ⟨0, arg, []⟩) := by
    have hmin' : ¬¬(nlmsgError < nlmsgMinType) := by decide
    have hdone : nlmsgError ≠ nlmsgDone := by decide
    rw [mnlCbRun_eq cb hmsgs, handleMsgs, mnlHandle, if_neg hmin', if_neg hdone, if_pos rfl,
      Endian.get32_put32, if_neg hnz]
    rfl
  rw [mdioXferReceive, msgRecv, hhandle]
  split <;> rfl

/-- A call without a bus of its name, or with a request against the policy, fails
with -1.  The callback is not called, and no bus is touched. -/
theorem mdioXferTimeout_refused (hsys : sys.Works) (seq : BitVec 32) (hnul : 0 ∉ name)
    (hfits : 36 + align4 (name.length + 1) + 8 * prog.length ≤ bufLen)
    (hrefused : sys.findBus name = none ∨ ¬Admissible name prog timeout) (cb : OpCallback σ)
    (arg : σ) (b : β) (fuel : Nat) :
    mdioXferTimeout sys seq name prog cb arg timeout b fuel = some (-1, ⟨0, arg, []⟩, b) := by
  have hlen : (requestBytes sys.env.endian sys.env.family seq name prog timeout).length ≤ bufLen := by
    rwa [requestBytes_length]
  have hreq : mdioXferRequest sys.env.endian sys.env.family seq name prog timeout =
      .ok (requestBytes sys.env.endian sys.env.family seq name prog timeout) := by
    refine if_neg ?_
    simp only [bufLen, sizeofInsn] at hfits ⊢
    omega
  have hcarried := requestBytes_carries sys.env seq name prog timeout sys.behind hnul hlen
  obtain ⟨err, hmin, hneg, hanswer⟩ : ∃ err, -2 ^ 31 ≤ err ∧ err < 0 ∧
      sys.answer (requestBytes sys.env.endian sys.env.family seq name prog timeout) b fuel =
        some ([sys.ack err], b) := by
    rw [MdioSystem.answer, genlRcvMsg]
    by_cases hpol : MdioNlPolicy sys.env.endian (genlInfo sys.env.endian
        (requestBytes sys.env.endian sys.env.family seq name prog timeout ++ sys.behind))
    · -- within the policy the request is admissible, so it is the bus that is missing
      obtain ⟨hshort, hlimit, hvalid⟩ := hcarried.policy.mp hpol
      have hfind := hrefused.resolve_right (not_not.mpr ⟨hnul, hshort, hfits, hvalid, hlimit⟩)
      obtain ⟨attr, hlooks, hname⟩ := hcarried.lookup
      refine ⟨-enodev, by decide, by decide, ?_⟩
      rw [if_pos hpol, mdioNlCmdXfer_lookup hlooks, hname, hfind, mdioNlCmdXfer_no_bus hlooks]
      rfl
    · exact ⟨sys.refusal, hsys.refusal_neg.1, hsys.refusal_neg.2, by rw [if_neg hpol]; rfl⟩
  simp only [mdioXferTimeout, hreq, hanswer, Option.bind_some,
    mdioXferReceive_ack hsys cb arg hmin hneg, Option.map_some]

/-- The call of a procedure on the other side of the socket.  With a bus of its
name and within the policy, the program runs on that bus and the callback is
called once, with all words and the status; in all other cases the call fails,
with no effect on the bus and without the callback. -/
theorem mdioXferTimeout_rpc (hsys : sys.Works) (seq : BitVec 32) (hnul : 0 ∉ name)
    (hfits : 36 + align4 (name.length + 1) + 8 * prog.length ≤ bufLen) (cb : OpCallback σ) (arg : σ)
    (b : β) (fuel : Nat) :
    (∀ bus, sys.findBus name = some bus → IntBus bus → Admissible name prog timeout →
      (∀ ret ws b', runWords bus (sys.late (limitRead sys.env.endian timeout)) prog b fuel =
        some (ret, ws, b') → OneMessage sys.env ws ret) →
      mdioXferTimeout sys seq name prog cb arg timeout b fuel =
        (runWords bus (sys.late (limitRead sys.env.endian timeout)) prog b fuel).map fun r =>
          ((delivered cb arg r.1 r.2.1).1, (delivered cb arg r.1 r.2.1).2, r.2.2)) ∧
    (sys.findBus name = none ∨ ¬Admissible name prog timeout →
      mdioXferTimeout sys seq name prog cb arg timeout b fuel = some (-1, ⟨0, arg, []⟩, b)) := by
  constructor
  · intro bus hfind hint hadm hone
    exact mdioXferTimeout_eq hsys seq hadm hfind hint cb arg b fuel hone
  · intro hrefused
    exact mdioXferTimeout_refused hsys seq hnul hfits hrefused cb arg b fuel

end Call

/-- A raw read over the socket, and one for a bus that is not there. -/
theorem mdioXferTimeout_rpc_read :
    mdioXferTimeout (exampleSystem nullBus) 1 [0x66] (mdioCommonRawProg (phyDriver 1) 1 none)
        mdioCommonRawReadCb [] xferTimeout () 3 = some (0, ⟨0, [0], [([0], 0)]⟩, ()) ∧
      mdioXferTimeout (exampleSystem nullBus) 1 [0x67] (mdioCommonRawProg (phyDriver 1) 1 none)
        mdioCommonRawReadCb [] xferTimeout () 3 = some (-1, ⟨0, [], []⟩, ()) := by
  have hrun : runWords nullBus (fun _ => false) (mdioCommonRawProg (phyDriver 1) 1 none) () 3 =
      some (0, [0], ()) := rfl
  have hworks := exampleSystem_works nullBus
  constructor
  · have hadm : Admissible [0x66] (mdioCommonRawProg (phyDriver 1) 1 none) xferTimeout :=
      ⟨by decide, by decide, by decide, by decide, by decide⟩
    have hcall := (mdioXferTimeout_rpc hworks 1 hadm.noNul hadm.fits mdioCommonRawReadCb [] ()
      3).1 nullBus rfl ⟨by simp [nullBus], by simp [nullBus]⟩ hadm
      (fun ret ws b' h => by cases hrun.symm.trans h; unfold OneMessage; decide)
    exact hcall.trans (congrArg _ hrun)
  · exact (mdioXferTimeout_rpc hworks 1 (by decide) (by decide) mdioCommonRawReadCb [] () 3).2
      (Or.inl rfl)

end MdioTools.System
