import MdioTools.Client.Receive
import MdioTools.System.RoundTrip

/-!
# Replies of more than one message

The kernel module starts another message when one is full.  The client calls
the callback of the operation for each of them, so a callback sees a part of
the output only.

Main results:

- Theorem {lit}`mdioXferReceive_stream`: the calls that a reply leads to.
- Theorem {lit}`presents_iff`: an operation is presented its whole output if
  and only if it arrives in one message, or the first message has all of it and
  the operation fails on that.
-/

namespace MdioTools.System

open Library Kernel Client

variable {σ : Type} {env : ReplyEnv}

/-- The buffers of an output that is split into full messages and a last one. -/
def splitReply (env : ReplyEnv) (full : List (List (BitVec 32))) (cur : List (BitVec 32))
    (e : Int) : List (List Byte) :=
  full.map (plainMsg env) ++ [finalMsg env cur e]

/-- What the kernel module sends is such a split, if its close finds room. -/
theorem replyStream_eq_splitReply (henv : Reliable env) {ws : List (BitVec 32)} {e : Int}
    (hfits : CloseFits env (lastFill env ws.length) e) :
    ∃ full cur, replyStream env ws e = splitReply env full cur e ∧ full.flatten ++ cur = ws := by
  obtain ⟨full, cur, hsent, hwords, -⟩ := replyStream_split henv hfits
  exact ⟨full, cur, hsent, hwords⟩

/-- The callback is called once, with all words and the final status. -/
def Presents (env : ReplyEnv) (cb : OpCallback σ) (arg : σ) (bufs : List (List Byte))
    (ws : List (BitVec 32)) (e : Int) : Prop :=
  ∃ ret x, mdioXferReceive env.endian cb arg bufs = some (ret, x) ∧ x.calls = [(ws, e)]

/-! ## The messages of a reply -/

@[simp]
theorem plainMsg_length (env : ReplyEnv) (ws : List (BitVec 32)) :
    (plainMsg env ws).length = 24 + 4 * ws.length := by
  simp [plainMsg]

@[simp]
theorem finalMsg_length (env : ReplyEnv) (ws : List (BitVec 32)) (e : Int) :
    (finalMsg env ws e).length = 40 + 4 * ws.length + (errorBytes env e).length := by
  simp [finalMsg]
  omega

/-- A generic message leads to a call with its words, and with its status if it
has one. -/
theorem mdioXferCbFor_genMsg (env : ReplyEnv) (cb : OpCallback σ) {ws : List (BitVec 32)}
    (hws : ws.length ≤ 16382) {e : Int} (hmin : -2 ^ 31 ≤ e) (hmax : e ≤ 0) (x : XferData σ) :
    mdioXferCbFor env.endian cb (genMsg env ws (errorBytes env e)) x =
      ({ x with err := if e = 0 then x.err else e } : XferData σ).call cb ws := by
  have hvalue : (BitVec.ofInt 32 e).toInt = e := by
    rw [BitVec.toInt_ofInt]
    exact Int.bmod_eq_of_le (by omega) (by omega)
  have hget : env.endian.get32 (env.endian.put32 (BitVec.ofInt 32 e)) = BitVec.ofInt 32 e := by
    simpa using env.endian.get32_put32 (BitVec.ofInt 32 e) []
  have hwords : words32 env.endian (wordBytes env ws) = ws := words32_flatMap _ _
  have hattrs := genMsg_attrs env hws (errorBytes env e)
  rw [errorBytes_attrs] at hattrs
  unfold mdioXferCbFor xferAttr nlaFind
  rw [hattrs]
  by_cases he : e = 0
  · simp [he, hwords, mdioNlaData, mdioNlaError]
  · simp [he, hwords, hget, hvalue, mdioNlaData, mdioNlaError]

/-- A full message that fits the buffer leads to one call, and the client goes
on if the operation does not fail. -/
theorem msgRecv_plain (hfam : ¬env.family < nlmsgMinType) (cb : OpCallback σ) {ws : List (BitVec 32)}
    (hfits : (plainMsg env ws).length ≤ bufLen) (rest : List (List Byte)) (x : XferData σ) :
    msgRecv env.endian cb (plainMsg env ws :: rest) x =
      if (cb ws x.err x.arg).1 = 0 then msgRecv env.endian cb rest (x.call cb ws).2
      else some (.error, (x.call cb ws).2) := by
  have hws : ws.length ≤ 16382 := by
    rw [plainMsg_length, bufLen] at hfits
    omega
  have hcall := mdioXferCbFor_genMsg env cb hws (e := 0) (by decide) (by decide) x
  rw [show errorBytes env 0 = [] from rfl, if_pos rfl] at hcall
  rw [msgRecv, if_neg (Nat.not_lt.mpr hfits), mnlCbRun_eq cb (nlMsgs_plainMsg hws), handleMsgs,
    mnlHandle_generic cb x hfam, hcall]
  by_cases hcb : (cb ws x.err x.arg).1 = 0
  · simp [XferData.call, hcb, handleMsgs]
  · simp [XferData.call, hcb]

/-- The last message leads to one call, behind which the reply is over. -/
theorem msgRecv_final (hfam : ¬env.family < nlmsgMinType) (cb : OpCallback σ)
    {ws : List (BitVec 32)} {e : Int}
    (hmin : -2 ^ 31 ≤ e) (hmax : e ≤ 0) (hfits : (finalMsg env ws e).length ≤ bufLen)
    (x : XferData σ) :
    ∃ r, msgRecv env.endian cb [finalMsg env ws e] x =
      some (r, (({ x with err := if e = 0 then x.err else e } : XferData σ).call cb ws).2) := by
  have hws : ws.length ≤ 16382 := by
    rw [finalMsg_length, bufLen] at hfits
    omega
  have hdone : ∀ y : XferData σ, handleMsgs env.endian cb [⟨nlmsgDone, []⟩] y = (.stop, y) := by
    intro y
    have hmin : ¬¬(nlmsgDone < nlmsgMinType) := by decide
    rw [handleMsgs, mnlHandle, if_neg hmin, if_pos rfl]
    rfl
  rw [msgRecv, if_neg (Nat.not_lt.mpr hfits), mnlCbRun_eq cb (nlMsgs_finalMsg hws e), handleMsgs,
    mnlHandle_generic cb x hfam, mdioXferCbFor_genMsg env cb hws hmin hmax]
  simp only [hdone]
  generalize ({ x with err := if e = 0 then x.err else e } : XferData σ) = y
  by_cases hcb : (cb ws y.err y.arg).1 = 0
  · exact ⟨.stop, by simp [XferData.call, hcb]⟩
  · exact ⟨.error, by simp [XferData.call, hcb]⟩

/-! ## The calls of a reply -/

/-- What the callback is called with: the words of one message after another,
until one does not fit the buffer or the operation fails. -/
def callsOf (env : ReplyEnv) (cb : OpCallback σ) (cur : List (BitVec 32)) (e : Int) :
    List (List (BitVec 32)) → σ → List (List (BitVec 32) × Int)
  | [], _ => if (finalMsg env cur e).length ≤ bufLen then [(cur, e)] else []
  | c :: full, arg =>
      if (plainMsg env c).length ≤ bufLen then
        if (cb c 0 arg).1 = 0 then (c, 0) :: callsOf env cb cur e full (cb c 0 arg).2
        else [(c, 0)]
      else []

/-- The receive path comes back from every reply, after these calls. -/
theorem mdioXferReceive_stream (hfam : ¬env.family < nlmsgMinType) (cb : OpCallback σ)
    (full : List (List (BitVec 32))) (cur : List (BitVec 32)) {e : Int} (hmin : -2 ^ 31 ≤ e)
    (hmax : e ≤ 0) (arg : σ) :
    ∃ ret x, mdioXferReceive env.endian cb arg (splitReply env full cur e) = some (ret, x) ∧
      x.calls = callsOf env cb cur e full arg := by
  have hrecv : ∀ x : XferData σ, x.err = 0 → ∃ r y,
      msgRecv env.endian cb (splitReply env full cur e) x = some (r, y) ∧
        y.calls = x.calls ++ callsOf env cb cur e full x.arg := by
    induction full with
    | nil =>
        intro x herr
        rw [splitReply, List.map_nil, List.nil_append, callsOf]
        by_cases hfits : (finalMsg env cur e).length ≤ bufLen
        · obtain ⟨r, hr⟩ := msgRecv_final hfam cb hmin hmax hfits x
          refine ⟨r, _, hr, ?_⟩
          rw [if_pos hfits, herr]
          by_cases he : e = 0
          · simp [XferData.call, he]
          · simp [XferData.call, he]
        · refine ⟨.error, x, ?_, by rw [if_neg hfits, List.append_nil]⟩
          rw [msgRecv, if_pos (Nat.lt_of_not_le hfits)]
    | cons c full ih =>
        intro x herr
        change ∃ r y, msgRecv env.endian cb (plainMsg env c :: splitReply env full cur e) x =
          some (r, y) ∧ _
        rw [callsOf]
        by_cases hfits : (plainMsg env c).length ≤ bufLen
        · rw [msgRecv_plain hfam cb hfits, if_pos hfits, herr]
          by_cases hcb : (cb c 0 x.arg).1 = 0
          · rw [if_pos hcb, if_pos hcb]
            obtain ⟨r, y, hr, hy⟩ := ih (x.call cb c).2 herr
            refine ⟨r, y, hr, ?_⟩
            rw [hy]
            simp [XferData.call, herr]
          · rw [if_neg hcb, if_neg hcb]
            exact ⟨_, _, rfl, by simp [XferData.call, herr]⟩
        · refine ⟨.error, x, ?_, by rw [if_neg hfits, List.append_nil]⟩
          rw [msgRecv, if_pos (Nat.lt_of_not_le hfits)]
  obtain ⟨r, y, hr, hy⟩ := hrecv ⟨0, arg, []⟩ rfl
  rw [mdioXferReceive, hr]
  exact ⟨_, y, rfl, hy⟩

/-- The reply is one message that fits the buffer; or the first of its messages
fits and has all the words, the status is 0 and the operation fails. -/
def WholeInFirst (env : ReplyEnv) (cb : OpCallback σ) (arg : σ) (full : List (List (BitVec 32)))
    (cur : List (BitVec 32)) (e : Int) : Prop :=
  match full with
  | [] => (finalMsg env cur e).length ≤ bufLen
  | c :: rest => (plainMsg env c).length ≤ bufLen ∧ rest.flatten ++ cur = [] ∧ e = 0 ∧
      (cb c 0 arg).1 ≠ 0

/-- Some message without words comes behind a message with all of them. -/
theorem callsOf_ne_nil (cb : OpCallback σ) {rest : List (List (BitVec 32))}
    {cur : List (BitVec 32)} (h : rest.flatten ++ cur = []) (e : Int) (arg : σ) :
    callsOf env cb cur e rest arg ≠ [] := by
  obtain ⟨hrest, hcur⟩ := List.append_eq_nil_iff.mp h
  have herror := errorBytes_length env e
  cases rest with
  | nil =>
      have hfits : (finalMsg env cur e).length ≤ bufLen := by
        rw [finalMsg_length, hcur, herror, bufLen, List.length_nil]
        split <;> omega
      rw [callsOf, if_pos hfits]
      exact List.cons_ne_nil _ _
  | cons d rest =>
      have hd : d = [] := List.flatten_eq_nil_iff.mp hrest d List.mem_cons_self
      have hfits : (plainMsg env d).length ≤ bufLen := by
        rw [plainMsg_length, hd, bufLen, List.length_nil]
        omega
      rw [callsOf, if_pos hfits]
      split <;> exact List.cons_ne_nil _ _

/-- An operation is presented the whole output and the final status, in one
call, if and only if they arrive in one message, or the operation has failed on
a first message with all words. -/
theorem presents_iff (hfam : ¬env.family < nlmsgMinType) (cb : OpCallback σ) (arg : σ)
    (full : List (List (BitVec 32))) (cur : List (BitVec 32)) (e : Int) (hmin : -2 ^ 31 ≤ e)
    (hmax : e ≤ 0) :
    Presents env cb arg (splitReply env full cur e) (full.flatten ++ cur) e ↔
      WholeInFirst env cb arg full cur e := by
  have hcalls : Presents env cb arg (splitReply env full cur e) (full.flatten ++ cur) e ↔
      callsOf env cb cur e full arg = [(full.flatten ++ cur, e)] := by
    obtain ⟨ret, x, hrun, hx⟩ := mdioXferReceive_stream hfam cb full cur hmin hmax arg
    constructor
    · rintro ⟨ret', x', hrun', hx'⟩
      cases hrun.symm.trans hrun'
      exact hx.symm.trans hx'
    · intro h
      exact ⟨ret, x, hrun, hx.trans h⟩
  rw [hcalls]
  cases full with
  | nil => simp [callsOf, WholeInFirst]
  | cons c rest =>
      have hsame : c = (c :: rest).flatten ++ cur ↔ rest.flatten ++ cur = [] := by
        rw [List.flatten_cons, List.append_assoc, List.self_eq_append_right]
      rw [callsOf, WholeInFirst]
      by_cases hfits : (plainMsg env c).length ≤ bufLen
      · rw [if_pos hfits]
        by_cases hcb : (cb c 0 arg).1 = 0
        · rw [if_pos hcb]
          -- the next message leads to another call
          refine iff_of_false (fun h => ?_) (fun h => h.2.2.2 hcb)
          obtain ⟨hfirst, hmore⟩ := List.cons.inj h
          have hnone := hsame.mp (congrArg Prod.fst hfirst)
          exact callsOf_ne_nil cb hnone e _ hmore
        · rw [if_neg hcb, List.singleton_inj, Prod.mk.injEq, hsame]
          constructor
          · rintro ⟨hnone, he⟩
            exact ⟨hfits, hnone, he.symm, hcb⟩
          · rintro ⟨-, hnone, he, -⟩
            exact ⟨hnone, he.symm⟩
      · rw [if_neg hfits]
        exact iff_of_false (fun h => by cases h) fun h => hfits h.1

/-- A read of one word arrives in one message. -/
theorem presents_iff_raw_read :
    Presents (exampleEnv []) mdioCommonRawReadCb [] (splitReply (exampleEnv []) [] [7] 0) [7] 0 :=
  (presents_iff (by decide) mdioCommonRawReadCb [] [] [7] 0 (by decide) (by decide)).mpr
    (show (finalMsg (exampleEnv []) [7] 0).length ≤ bufLen by decide)

/-- Of 939 incorrect values, which are more than a message holds, a benchmark is
presented 938. -/
theorem presents_bench_part :
    (mdioXferReceive .little mdioCommonBenchCb []
        (splitReply (exampleEnv []) [List.replicate 938 1] [2] 0)).map (·.2.calls) =
      some [(List.replicate 938 1, 0)] ∧
    ¬Presents (exampleEnv []) mdioCommonBenchCb []
      (splitReply (exampleEnv []) [List.replicate 938 1] [2] 0) (List.replicate 938 1 ++ [2]) 0 := by
  have hfam : ¬(exampleEnv []).family < nlmsgMinType := by decide
  obtain ⟨ret, x, hrun, hx⟩ := mdioXferReceive_stream hfam mdioCommonBenchCb
    [List.replicate 938 1] [2] (e := 0) (by decide) (by decide) []
  have hcalls : x.calls = [(List.replicate 938 1, 0)] := by
    have hfits : (plainMsg (exampleEnv []) (List.replicate 938 1)).length ≤ bufLen := by
      rw [plainMsg_length, List.length_replicate]
      decide
    have hfail : (mdioCommonBenchCb (List.replicate 938 1) 0 []).1 ≠ 0 := by
      rw [mdioCommonBenchCb, List.length_replicate]
      decide
    rw [hx, callsOf, if_pos hfits, if_neg hfail]
  constructor
  · rw [show Endian.little = (exampleEnv []).endian from rfl, hrun, Option.map_some, hcalls]
  · rintro ⟨ret', x', hrun', hx'⟩
    cases hrun.symm.trans hrun'
    have hsame := congrArg Prod.fst (List.singleton_inj.mp (hcalls.symm.trans hx'))
    exact List.cons_ne_nil _ _ (List.self_eq_append_right.mp hsame)

end MdioTools.System
