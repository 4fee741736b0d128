import MdioTools.Kernel.CmdXfer
import MdioTools.Client.XferCb
import Mathlib.Data.List.Basic
import Mathlib.Data.List.Induction

/-!
# Round trip of a reply

The kernel module writes the reply to a request, and the client reads it.  As
long as no call fails, the bytes of the current message are known at every
point: headers with two length fields, and a body.  The length fields are those
stored last, which need not fit what the message holds when it is sent.

Main results:

- Theorem {lit}`emitAll_chunks`: emitting fills messages one after another.
- Theorem {lit}`replyStream_sent`: the messages sent for a reply, in each of
  the five ways in which the close can find room.
- Theorem {lit}`replyStream_roundTrip`: the client finds the emitted words and
  the status if and only if the last message has room for what the close adds,
  and no attribute is longer than its length field can say.
-/

namespace MdioTools.System

open Library Kernel Client

/-- No call fails, there is room for an empty message with an ERROR attribute
and an NLMSG_DONE header, and the family has a generic netlink number. -/
structure Reliable (env : ReplyEnv) : Prop where
  no_fault : ∀ n, env.fault n = 0
  family : ¬env.family < nlmsgMinType
  room : 48 ≤ env.capacity

/-! ## The bytes of the current message -/

/-- A message with the given length fields of message and nest. -/
def replyBytes (env : ReplyEnv) (len : BitVec 32) (nest : BitVec 16) (body : List Byte) :
    List Byte :=
  nlmsghdr env len env.family ++ [mdioGenlXfer, mdioGenlVersion, 0, 0] ++
    nlahdr env nest (mdioNlaData ||| nlaFNested) ++ body

/-- The current message has these length fields and this body. -/
structure Holds (env : ReplyEnv) (x : Xfer) (len : BitVec 32) (nest : BitVec 16)
    (body : List Byte) : Prop where
  msg : ∃ id, x.msg = some ⟨id, replyBytes env len nest body⟩
  hdr : x.hdr = some 20
  data : x.data = some 20

/-- The header of a message takes 16 bytes. -/
@[simp]
theorem nlmsghdr_length (env : ReplyEnv) (len : BitVec 32) (type : BitVec 16) :
    (nlmsghdr env len type).length = 16 := by
  simp [nlmsghdr]

/-- The header of an attribute takes four bytes. -/
@[simp]
theorem nlahdr_length (env : ReplyEnv) (len type : BitVec 16) :
    (nlahdr env len type).length = 4 := by
  simp [nlahdr]

/-- The headers of a reply take 24 bytes. -/
@[simp]
theorem replyBytes_length (env : ReplyEnv) (len : BitVec 32) (nest : BitVec 16)
    (body : List Byte) : (replyBytes env len nest body).length = 24 + body.length := by
  simp [replyBytes]
  omega

/-- Bytes that are appended belong to the body. -/
theorem replyBytes_append (env : ReplyEnv) (len : BitVec 32) (nest : BitVec 16)
    (body bytes : List Byte) :
    replyBytes env len nest body ++ bytes = replyBytes env len nest (body ++ bytes) := by
  simp [replyBytes]

variable {env : ReplyEnv} {x : Xfer} {len : BitVec 32} {nest : BitVec 16} {body : List Byte}

/-- The tail of a message is behind headers and body. -/
theorem Holds.tail (h : Holds env x len nest body) : x.tail = 24 + body.length := by
  obtain ⟨id, hmsg⟩ := h.msg
  simp [Xfer.tail, hmsg]

/-- Storing the length of the nest. -/
theorem replyBytes_patch_nest (env : ReplyEnv) (len : BitVec 32) (nest nest' : BitVec 16)
    (body : List Byte) :
    patch (replyBytes env len nest body) 20 (env.endian.put16 nest') =
      replyBytes env len nest' body := by
  have hpre : (nlmsghdr env len env.family ++ [mdioGenlXfer, mdioGenlVersion, 0, 0]).length = 20 := by
    simp
  have hpatch := patch_append (nlmsghdr env len env.family ++ [mdioGenlXfer, mdioGenlVersion, 0, 0])
    (env.endian.put16 nest) (env.endian.put16 (mdioNlaData ||| nlaFNested) ++ body)
    (env.endian.put16 nest') (by simp)
  rw [hpre] at hpatch
  simpa only [replyBytes, nlahdr, List.append_assoc] using hpatch

/-- Storing the length of the message. -/
theorem replyBytes_patch_len (env : ReplyEnv) (len len' : BitVec 32) (nest : BitVec 16)
    (body : List Byte) :
    patch (replyBytes env len nest body) 0 (env.endian.put32 len') =
      replyBytes env len' nest body := by
  have hpatch := patch_append [] (env.endian.put32 len)
    (env.endian.put16 env.family ++ env.endian.put16 replyFlags ++ env.endian.put32 env.seq ++
      env.endian.put32 env.portid ++ [mdioGenlXfer, mdioGenlVersion, 0, 0] ++
      nlahdr env nest (mdioNlaData ||| nlaFNested) ++ body)
    (env.endian.put32 len') (by simp)
  simpa only [replyBytes, nlmsghdr, List.append_assoc, List.nil_append, List.length_nil]
    using hpatch

/-! ## The calls -/

/-- Bytes that fit are appended to the body. -/
theorem Holds.append (henv : Reliable env) (h : Holds env x len nest body) (c : SkbCall)
    (bytes : List Byte) (hfit : 24 + body.length + bytes.length ≤ env.capacity) :
    (skbAppend env c bytes x).1 = true ∧
      Holds env (skbAppend env c bytes x).2 len nest (body ++ bytes) ∧
      (skbAppend env c bytes x).2.sent = x.sent := by
  obtain ⟨id, hmsg⟩ := h.msg
  have hroom : ¬(env.fault x.calls ≠ 0 ∨
      env.capacity < (replyBytes env len nest body).length + bytes.length) := by
    rw [henv.no_fault, replyBytes_length]
    omega
  simp only [skbAppend, hmsg, if_neg hroom, true_and]
  exact ⟨⟨⟨id, by rw [← replyBytes_append]; rfl⟩, h.hdr, h.data⟩, rfl⟩

/-- Bytes that do not fit change nothing. -/
theorem Holds.full (h : Holds env x len nest body) (c : SkbCall) (bytes : List Byte)
    (hfull : env.capacity < 24 + body.length + bytes.length) :
    (skbAppend env c bytes x).1 = false ∧ Holds env (skbAppend env c bytes x).2 len nest body ∧
      (skbAppend env c bytes x).2.sent = x.sent := by
  obtain ⟨id, hmsg⟩ := h.msg
  have hroom : env.fault x.calls ≠ 0 ∨
      env.capacity < (replyBytes env len nest body).length + bytes.length := by
    rw [replyBytes_length]
    omega
  simp only [skbAppend, hmsg, if_pos hroom, true_and]
  exact ⟨⟨⟨id, rfl⟩, h.hdr, h.data⟩, rfl⟩

/-- Ending the nest stores the distance from its header to the tail. -/
theorem Holds.nestEnd (h : Holds env x len nest body) :
    Holds env (nlaNestEnd env x) len (BitVec.ofNat 16 (4 + body.length)) body ∧
      (nlaNestEnd env x).sent = x.sent := by
  obtain ⟨id, hmsg⟩ := h.msg
  have hdist : x.tail - x.data.getD 0 = 4 + body.length := by
    rw [h.tail, h.data, Option.getD_some]
    omega
  refine ⟨⟨⟨id, ?_⟩, h.hdr, h.data⟩, rfl⟩
  simp only [nlaNestEnd, Xfer.record, Xfer.patch, hmsg, Option.map_some]
  rw [hdist, h.data, Option.getD_some, replyBytes_patch_nest]

/-- Ending the message stores its length. -/
theorem Holds.msgEnd (h : Holds env x len nest body) :
    Holds env (genlmsgEnd env x) (BitVec.ofNat 32 (24 + body.length)) nest body ∧
      (genlmsgEnd env x).sent = x.sent := by
  obtain ⟨id, hmsg⟩ := h.msg
  have hoff : x.hdr.getD 0 - genlHdrlen - nlmsgHdrlen = 0 := by
    rw [h.hdr]
    rfl
  refine ⟨⟨⟨id, ?_⟩, h.hdr, h.data⟩, rfl⟩
  simp only [genlmsgEnd, Xfer.record, Xfer.patch, hmsg, Option.map_some]
  rw [hoff, h.tail, Nat.sub_zero, replyBytes_patch_len]

/-- Sending adds the message to those sent. -/
theorem Holds.unicast (henv : Reliable env) (h : Holds env x len nest body) :
    (genlmsgUnicast env x).1 = 0 ∧
      (genlmsgUnicast env x).2.sent = x.sent ++ [replyBytes env len nest body] := by
  obtain ⟨id, hmsg⟩ := h.msg
  simp [genlmsgUnicast, henv.no_fault, Xfer.record, hmsg]

/-- Opening starts an empty message, whatever there was before. -/
theorem mdioNlOpen_holds (henv : Reliable env) (x : Xfer) :
    (mdioNlOpen env x).1 = 0 ∧ Holds env (mdioNlOpen env x).2 20 4 [] ∧
      (mdioNlOpen env x).2.sent = x.sent := by
  have hroom := henv.room
  have hhdr : ¬(env.capacity < 20) := by omega
  have hnest : ¬(env.capacity < 24) := by omega
  simp [mdioNlOpen, nlmsgNew, genlmsgPut, nlaNestStart, skbAppend, henv.no_fault, Xfer.record,
    Xfer.tail, hhdr, hnest]
  exact ⟨⟨x.nextId, by simp [replyBytes]⟩, rfl, rfl⟩

/-- A flush sends the message with the lengths of what it holds and opens an
empty one. -/
theorem Holds.flush (henv : Reliable env) (h : Holds env x len nest body) :
    (mdioNlFlush env x).1 = 0 ∧ Holds env (mdioNlFlush env x).2 20 4 [] ∧
      (mdioNlFlush env x).2.sent = x.sent ++
        [replyBytes env (BitVec.ofNat 32 (24 + body.length))
          (BitVec.ofNat 16 (4 + body.length)) body] := by
  obtain ⟨hnest, hnestSent⟩ := h.nestEnd
  obtain ⟨hmsg, hmsgSent⟩ := hnest.msgEnd
  obtain ⟨herr, hsent⟩ := hmsg.unicast henv
  obtain ⟨hopen, hholds, hopenSent⟩ := mdioNlOpen_holds henv
    (genlmsgUnicast env (genlmsgEnd env (nlaNestEnd env x))).2
  rw [hmsgSent, hnestSent] at hsent
  rw [mdioNlFlush_eq]
  simp only [herr, ne_eq, not_true_eq_false, if_false]
  refine ⟨hopen, ⟨hholds.msg, hholds.hdr, hholds.data⟩, ?_⟩
  rw [hopenSent, hsent]

/-- A put that fits. -/
theorem Holds.put (henv : Reliable env) (h : Holds env x len nest body) (c : SkbCall)
    (bytes : List Byte) (hfit : 24 + body.length + bytes.length ≤ env.capacity) :
    (putRetry env c bytes x).1 = 0 ∧
      Holds env (putRetry env c bytes x).2 len nest (body ++ bytes) ∧
      (putRetry env c bytes x).2.sent = x.sent := by
  obtain ⟨hok, hholds, hsent⟩ := h.append henv c bytes hfit
  simp only [putRetry, hok, if_true, true_and]
  exact ⟨hholds, hsent⟩

/-- A put that does not fit goes into the next message. -/
theorem Holds.putNext (henv : Reliable env) (h : Holds env x len nest body) (c : SkbCall)
    (bytes : List Byte) (hfull : env.capacity < 24 + body.length + bytes.length)
    (hfit : 24 + bytes.length ≤ env.capacity) :
    (putRetry env c bytes x).1 = 0 ∧ Holds env (putRetry env c bytes x).2 20 4 bytes ∧
      (putRetry env c bytes x).2.sent = x.sent ++
        [replyBytes env (BitVec.ofNat 32 (24 + body.length))
          (BitVec.ofNat 16 (4 + body.length)) body] := by
  obtain ⟨hfail, hholds, hsent⟩ := h.full c bytes hfull
  obtain ⟨hflush, hholds', hsent'⟩ := hholds.flush henv
  obtain ⟨hok, hholds'', hsent''⟩ := hholds'.append henv c bytes
    (by simpa using hfit)
  simp only [putRetry, hfail, hflush, hok, Bool.false_eq_true, if_false, ne_eq,
    not_true_eq_false, if_true, true_and]
  refine ⟨by simpa using hholds'', ?_⟩
  rw [hsent'', hsent', hsent]

/-! ## Emitting -/

/-- The words of a body. -/
def wordBytes (env : ReplyEnv) (ws : List (BitVec 32)) : List Byte :=
  ws.flatMap env.endian.put32

/-- A message as a flush sends it: full of words, with the lengths of what it
holds. -/
def plainMsg (env : ReplyEnv) (ws : List (BitVec 32)) : List Byte :=
  replyBytes env (BitVec.ofNat 32 (24 + 4 * ws.length)) (BitVec.ofNat 16 (4 + 4 * ws.length))
    (wordBytes env ws)

/-- The number of words in a full message. -/
def wordsPerMsg (env : ReplyEnv) : Nat :=
  (env.capacity - 24) / 4

/-- `mdio_nl_emit` for one word after another. -/
def emitAll (env : ReplyEnv) (ws : List (BitVec 32)) (x : Xfer) : Xfer :=
  ws.foldl (fun x w => (mdioNlEmit env w x).2) x

/-- A word takes four bytes. -/
@[simp]
theorem wordBytes_length (env : ReplyEnv) (ws : List (BitVec 32)) :
    (wordBytes env ws).length = 4 * ws.length :=
  flatMap_put32_length _ _

@[simp]
theorem wordBytes_nil (env : ReplyEnv) : wordBytes env [] = [] :=
  rfl

theorem wordBytes_snoc (env : ReplyEnv) (ws : List (BitVec 32)) (w : BitVec 32) :
    wordBytes env (ws ++ [w]) = wordBytes env ws ++ env.endian.put32 w := by
  simp [wordBytes]

/-- What the words emitted so far have become: full messages that are sent, and
the words of the current message. -/
structure Emitted (env : ReplyEnv) (ws : List (BitVec 32)) (x : Xfer)
    (full : List (List (BitVec 32))) (cur : List (BitVec 32)) : Prop where
  words : ws = full.flatten ++ cur
  sent : x.sent = full.map (plainMsg env)
  holds : Holds env x 20 4 (wordBytes env cur)
  full_length : ∀ c ∈ full, c.length = wordsPerMsg env
  cur_length : cur.length ≤ wordsPerMsg env
  cur_ne_nil : ws ≠ [] → cur ≠ []

/-- One word more goes into the current message, or into the next one if that
is full. -/
theorem Emitted.emit (henv : Reliable env) {ws : List (BitVec 32)}
    {full : List (List (BitVec 32))} {cur : List (BitVec 32)} (h : Emitted env ws x full cur)
    (w : BitVec 32) :
    (mdioNlEmit env w x).1 = 0 ∧
      ∃ full' cur', Emitted env (ws ++ [w]) (mdioNlEmit env w x).2 full' cur' := by
  have hroom := henv.room
  have hput : (env.endian.put32 w).length = 4 := env.endian.put32_length w
  have hcur := h.cur_length
  rw [mdioNlEmit_eq]
  by_cases hfit : 24 + 4 * cur.length + 4 ≤ env.capacity
  · obtain ⟨hok, hholds, hsent⟩ := h.holds.put henv .nlaPutNohdr
      (env.endian.put32 w) (by rw [wordBytes_length, hput]; omega)
    refine ⟨hok, full, cur ++ [w], ?_, ?_, ?_, h.full_length, ?_, ?_⟩
    · rw [h.words, List.append_assoc]
    · rw [hsent, h.sent]
    · rw [wordBytes_snoc]
      exact hholds
    · simp only [wordsPerMsg, List.length_append, List.length_singleton]
      omega
    · simp
  · obtain ⟨hok, hholds, hsent⟩ := h.holds.putNext henv .nlaPutNohdr
      (env.endian.put32 w) (by rw [wordBytes_length, hput]; omega)
      (by rw [hput]; omega)
    refine ⟨hok, full ++ [cur], [w], ?_, ?_, ?_, ?_, ?_, ?_⟩
    · simp [h.words]
    · rw [hsent, h.sent, List.map_append]
      simp [plainMsg]
    · simpa [wordBytes] using hholds
    · intro c hc
      rcases List.mem_append.mp hc with hc | hc
      · exact h.full_length c hc
      · cases List.mem_singleton.mp hc
        unfold wordsPerMsg at hcur ⊢
        omega
    · simp only [wordsPerMsg, List.length_singleton]
      omega
    · simp

/-- Emitting fills messages one after another. -/
theorem emitAll_chunks (henv : Reliable env) (ws : List (BitVec 32)) :
    ∃ full cur, Emitted env ws (emitAll env ws (mdioNlOpen env Xfer.init).2) full cur := by
  induction ws using List.reverseRecOn with
  | nil =>
      obtain ⟨-, hholds, hsent⟩ := mdioNlOpen_holds henv Xfer.init
      refine ⟨[], [], rfl, hsent, hholds, ?_, Nat.zero_le _, fun h => absurd rfl h⟩
      intro c hc
      cases hc
  | append_singleton ws w ih =>
      obtain ⟨full, cur, h⟩ := ih
      have hstep : emitAll env (ws ++ [w]) (mdioNlOpen env Xfer.init).2 =
          (mdioNlEmit env w (emitAll env ws (mdioNlOpen env Xfer.init).2)).2 := by
        simp [emitAll]
      rw [hstep]
      exact (h.emit henv w).2

/-- The number of words in the current message after `n` words. -/
def lastFill (env : ReplyEnv) (n : Nat) : Nat :=
  if n = 0 then 0 else (n - 1) % wordsPerMsg env + 1

/-- All messages but the current one are full. -/
theorem Emitted.length {ws : List (BitVec 32)} {full : List (List (BitVec 32))}
    {cur : List (BitVec 32)} (h : Emitted env ws x full cur) :
    ws.length = full.length * wordsPerMsg env + cur.length := by
  have hflat : full.flatten.length = full.length * wordsPerMsg env := by
    have hfull := h.full_length
    clear h
    induction full with
    | nil => simp
    | cons c full ih =>
        rw [List.flatten_cons, List.length_append, hfull c List.mem_cons_self,
          ih fun d hd => hfull d (List.mem_cons_of_mem _ hd), List.length_cons, Nat.succ_mul]
        omega
  rw [h.words, List.length_append, hflat]

/-- The current message is not empty once a word is emitted. -/
theorem Emitted.cur_pos {ws : List (BitVec 32)} {full : List (List (BitVec 32))}
    {cur : List (BitVec 32)} (h : Emitted env ws x full cur) (hws : ws.length ≠ 0) :
    0 < cur.length := by
  have hne : ws ≠ [] := by
    rintro rfl
    exact hws rfl
  exact List.length_pos_iff.mpr (h.cur_ne_nil hne)

/-- The fill of the current message follows from the number of words. -/
theorem Emitted.cur_eq {ws : List (BitVec 32)} {full : List (List (BitVec 32))}
    {cur : List (BitVec 32)} (h : Emitted env ws x full cur) :
    cur.length = lastFill env ws.length := by
  have hlen := h.length
  have hle := h.cur_length
  unfold lastFill
  split
  · omega
  · rename_i hws
    have hpos := h.cur_pos hws
    have hpred : ws.length - 1 = wordsPerMsg env * full.length + (cur.length - 1) := by
      rw [hlen, Nat.mul_comm]
      omega
    rw [hpred, Nat.mul_add_mod, Nat.mod_eq_of_lt (by omega)]
    omega

/-- The longest message has as many words as there are, or as many as fit. -/
theorem Emitted.longest_le_iff {ws : List (BitVec 32)} {full : List (List (BitVec 32))}
    {cur : List (BitVec 32)} (h : Emitted env ws x full cur) (k : Nat) :
    ((∀ c ∈ full, c.length ≤ k) ∧ cur.length ≤ k) ↔ min ws.length (wordsPerMsg env) ≤ k := by
  have hlen := h.length
  have hle := h.cur_length
  cases full with
  | nil =>
      simp only [List.length_nil, Nat.zero_mul, Nat.zero_add] at hlen
      simp only [List.not_mem_nil, false_implies, implies_true, true_and]
      omega
  | cons c full =>
      have hc := h.full_length c List.mem_cons_self
      have hmany : wordsPerMsg env ≤ ws.length := by
        rw [hlen, List.length_cons, Nat.succ_mul]
        omega
      constructor
      · intro hall
        have := hall.1 c List.mem_cons_self
        omega
      · intro hmin
        refine ⟨fun d hd => ?_, by omega⟩
        rw [h.full_length d hd]
        omega

/-! ## Closing -/

/-- The bytes of the ERROR attribute if there is a status to report. -/
def errorBytes (env : ReplyEnv) (e : Int) : List Byte :=
  if e = 0 then [] else errorAttr env e

/-- The last message of a reply as it should be: words, status and DONE. -/
def finalMsg (env : ReplyEnv) (ws : List (BitVec 32)) (e : Int) : List Byte :=
  replyBytes env (BitVec.ofNat 32 (24 + 4 * ws.length + (errorBytes env e).length))
    (BitVec.ofNat 16 (4 + 4 * ws.length)) (wordBytes env ws ++ errorBytes env e ++ doneHdr env)

/-- The last message when DONE has not fit: its length is still that of the
headers of a generic message, from before the nest was started. -/
def brokenMsg (env : ReplyEnv) : List Byte :=
  replyBytes env 20 4 (doneHdr env)

/-- With `k` words in the current message the close finds room: for DONE, for
ERROR and DONE, or not even for ERROR. -/
def CloseFits (env : ReplyEnv) (k : Nat) (e : Int) : Prop :=
  if e = 0 then 24 + 4 * k + 16 ≤ env.capacity
  else 24 + 4 * k + 24 ≤ env.capacity ∨ env.capacity < 24 + 4 * k + 8

instance (env : ReplyEnv) (k : Nat) (e : Int) : Decidable (CloseFits env k e) :=
  inferInstanceAs (Decidable (if e = 0 then _ else _))

/-- An ERROR attribute takes eight bytes. -/
@[simp]
theorem errorAttr_length (env : ReplyEnv) (e : Int) : (errorAttr env e).length = 8 := by
  simp [errorAttr]

/-- An NLMSG_DONE header takes 16 bytes. -/
@[simp]
theorem doneHdr_length (env : ReplyEnv) : (doneHdr env).length = 16 := by
  simp [doneHdr]

/-- Where DONE fits, the message is sent with it. -/
theorem Holds.closeDone (henv : Reliable env) (h : Holds env x len nest body)
    (hfit : 24 + body.length + 16 ≤ env.capacity) :
    (closeStage env .nlmsgPut (doneHdr env) true (genlmsgUnicast env) x).1 = 0 ∧
      (closeStage env .nlmsgPut (doneHdr env) true (genlmsgUnicast env) x).2.sent =
        x.sent ++ [replyBytes env len nest (body ++ doneHdr env)] := by
  obtain ⟨hok, hholds, hsent⟩ := h.put henv .nlmsgPut (doneHdr env) (by simpa using hfit)
  obtain ⟨herr, hsent'⟩ := hholds.unicast henv
  simp only [closeStage, if_true, hok, ne_eq, not_true_eq_false, if_false]
  exact ⟨herr, by rw [hsent', hsent]⟩

/-- Where DONE does not fit, the message is sent with its lengths stored once
more, and DONE is sent in a message whose lengths are never stored. -/
theorem Holds.closeBroken (henv : Reliable env) (h : Holds env x len nest body)
    (hfull : env.capacity < 24 + body.length + 16) :
    (closeStage env .nlmsgPut (doneHdr env) true (genlmsgUnicast env) x).1 = 0 ∧
      ∃ pre, (closeStage env .nlmsgPut (doneHdr env) true (genlmsgUnicast env) x).2.sent =
        pre ++ [brokenMsg env] := by
  have hroom := henv.room
  obtain ⟨hok, hholds, hsent⟩ := h.putNext henv .nlmsgPut (doneHdr env) (by simpa using hfull)
    (by simp; omega)
  obtain ⟨herr, hsent'⟩ := hholds.unicast henv
  simp only [closeStage, if_true, hok, ne_eq, not_true_eq_false, if_false]
  exact ⟨herr, _, by rw [hsent']; rfl⟩

/-- The last call of every close: end the message, put DONE and send. -/
def closeTail (env : ReplyEnv) (x : Xfer) : Int × Xfer :=
  closeStage env .nlmsgPut (doneHdr env) true (genlmsgUnicast env) (genlmsgEnd env x)

/-- The close of a request begins with the ERROR attribute. -/
theorem mdioNlClose_true (env : ReplyEnv) (e : Int) (x : Xfer) :
    mdioNlClose env true e x =
      closeStage env .nlaPut (errorAttr env e) (decide (e ≠ 0)) (closeTail env)
        (nlaNestEnd env x) :=
  mdioNlClose_stages env true e x

/-- How a reply ends after the given full messages and current words: with a
final message, which may come after a message with all the words, or with a
broken one. -/
def EndsWith (env : ReplyEnv) (full : List (List (BitVec 32))) (cur : List (BitVec 32)) (e : Int)
    (sent : List (List Byte)) : Prop :=
  if CloseFits env cur.length e then
    sent = full.map (plainMsg env) ++ [finalMsg env cur e] ∨
      sent = (full ++ [cur]).map (plainMsg env) ++ [finalMsg env [] e]
  else ∃ pre, sent = pre ++ [brokenMsg env]

/-- The close of a reply in each of the ways in which it can find room. -/
theorem Emitted.close (henv : Reliable env) {ws : List (BitVec 32)}
    {full : List (List (BitVec 32))} {cur : List (BitVec 32)} (h : Emitted env ws x full cur)
    (e : Int) :
    (mdioNlClose env true e x).1 = 0 ∧
      EndsWith env full cur e (mdioNlClose env true e x).2.sent := by
  have hroom := henv.room
  obtain ⟨hnest, hnestSent⟩ := h.holds.nestEnd
  rw [wordBytes_length] at hnest
  rw [h.sent] at hnestSent
  rw [mdioNlClose_true]
  unfold EndsWith CloseFits
  by_cases he : e = 0
  · subst he
    obtain ⟨hend, hendSent⟩ := hnest.msgEnd
    rw [hnestSent] at hendSent
    rw [wordBytes_length] at hend
    simp only [closeStage, ne_eq, not_true_eq_false, decide_false, Bool.false_eq_true, if_false,
      if_true]
    by_cases hfit : 24 + 4 * cur.length + 16 ≤ env.capacity
    · obtain ⟨herr, hsent⟩ := hend.closeDone henv (by simpa using hfit)
      rw [if_pos hfit]
      refine ⟨herr, Or.inl ?_⟩
      rw [closeTail, hsent, hendSent]
      simp [finalMsg, errorBytes]
    · rw [if_neg hfit]
      exact hend.closeBroken henv (by simpa using hfit)
  · simp only [closeStage, ne_eq, he, not_false_eq_true, decide_true, if_true, if_false]
    by_cases herror : 24 + 4 * cur.length + 8 ≤ env.capacity
    · obtain ⟨hput, hholds, hsent⟩ := hnest.put henv .nlaPut (errorAttr env e)
        (by simpa using herror)
      obtain ⟨hend, hendSent⟩ := hholds.msgEnd
      simp only [hput, not_true_eq_false, if_false]
      by_cases hfit : 24 + 4 * cur.length + 24 ≤ env.capacity
      · obtain ⟨herr, hsent'⟩ := hend.closeDone henv (by simp; omega)
        rw [if_pos (Or.inl hfit)]
        refine ⟨herr, Or.inl ?_⟩
        rw [closeTail, hsent', hendSent, hsent, hnestSent]
        simp [finalMsg, errorBytes, he, Nat.add_assoc]
      · rw [if_neg (by omega)]
        exact hend.closeBroken henv (by simp; omega)
    · obtain ⟨hput, hholds, hsent⟩ := hnest.putNext henv .nlaPut (errorAttr env e)
        (by simp; omega) (by simp; omega)
      rw [wordBytes_length] at hsent
      obtain ⟨hend, hendSent⟩ := hholds.msgEnd
      obtain ⟨herr, hsent'⟩ := hend.closeDone henv (by simp; omega)
      simp only [hput, not_true_eq_false, if_false]
      rw [if_pos (by omega)]
      refine ⟨herr, Or.inr ?_⟩
      rw [closeTail, hsent', hendSent, hsent, hnestSent]
      simp [finalMsg, plainMsg, errorBytes, he]

/-! ## Reading what was sent -/

/-- The generic message of words and extra attributes, as it is read. -/
def genMsg (env : ReplyEnv) (ws : List (BitVec 32)) (extra : List Byte) : NlMsg where
  type := env.family
  payload := [mdioGenlXfer, mdioGenlVersion, 0, 0] ++
    nlahdr env (BitVec.ofNat 16 (4 + 4 * ws.length)) (mdioNlaData ||| nlaFNested) ++
    wordBytes env ws ++ extra

/-- The ERROR attribute is there if the status is not zero. -/
theorem errorBytes_length (env : ReplyEnv) (e : Int) :
    (errorBytes env e).length = if e = 0 then 0 else 8 := by
  unfold errorBytes
  split <;> simp

/-- A message with a stored length in front of others is read. -/
theorem nlMsgs_replyBytes (env : ReplyEnv) {ws : List (BitVec 32)} (extra rest : List Byte)
    (hws : ws.length ≤ 16382) (hextra : extra.length ≤ 8) (hpad : extra.length % 4 = 0) :
    nlMsgs env.endian (replyBytes env (BitVec.ofNat 32 (24 + 4 * ws.length + extra.length))
      (BitVec.ofNat 16 (4 + 4 * ws.length)) (wordBytes env ws ++ extra ++ rest)) =
      (nlMsgs env.endian rest).map (genMsg env ws extra :: ·) := by
  have hbody : (genMsg env ws extra).payload.length = 8 + 4 * ws.length + extra.length := by
    simp [genMsg]
    omega
  have hlen : (BitVec.ofNat 32 (24 + 4 * ws.length + extra.length)).toNat =
      16 + (genMsg env ws extra).payload.length := by
    rw [BitVec.toNat_ofNat, Nat.mod_eq_of_lt (by omega), hbody]
    omega
  have hbytes : replyBytes env (BitVec.ofNat 32 (24 + 4 * ws.length + extra.length))
      (BitVec.ofNat 16 (4 + 4 * ws.length)) (wordBytes env ws ++ extra ++ rest) =
      nlHeader env.endian (BitVec.ofNat 32 (24 + 4 * ws.length + extra.length)) env.family
        replyFlags env.seq env.portid ++ (genMsg env ws extra).payload ++ rest := by
    simp [replyBytes, nlmsghdr, nlHeader, genMsg]
  rw [hbytes, nlMsgs_header env.endian env.family replyFlags env.seq env.portid rest hlen
    (by omega)]
  rfl

/-- A full message is read as a single generic message. -/
theorem nlMsgs_plainMsg {ws : List (BitVec 32)} (hws : ws.length ≤ 16382) :
    nlMsgs env.endian (plainMsg env ws) = some [genMsg env ws []] := by
  have hread := nlMsgs_replyBytes env [] [] hws (by simp) (by simp)
  simpa [plainMsg] using hread

/-- The final message is read as a generic message and NLMSG_DONE. -/
theorem nlMsgs_finalMsg {ws : List (BitVec 32)} (hws : ws.length ≤ 16382) (e : Int) :
    nlMsgs env.endian (finalMsg env ws e) =
      some [genMsg env ws (errorBytes env e), ⟨nlmsgDone, []⟩] := by
  have hlen := errorBytes_length env e
  have hdone : nlMsgs env.endian (doneHdr env) = some [⟨nlmsgDone, []⟩] := by
    have hlen : (16 : BitVec 32).toNat = 16 + ([] : List Byte).length := by decide
    have hread := nlMsgs_header env.endian nlmsgDone replyFlags env.seq env.portid [] hlen
      (by decide)
    simpa [doneHdr, nlmsghdr, nlHeader] using hread
  rw [finalMsg, nlMsgs_replyBytes env _ _ hws (by rw [hlen]; split <;> omega)
    (by rw [hlen]; split <;> omega), hdone]
  rfl

/-- The DATA attribute has the words. -/
theorem genMsg_attrs (env : ReplyEnv) {ws : List (BitVec 32)} (hws : ws.length ≤ 16382)
    (extra : List Byte) :
    nlAttrs env.endian ((genMsg env ws extra).payload.drop genlHdrlen) =
      ⟨mdioNlaData, wordBytes env ws⟩ :: nlAttrs env.endian extra := by
  have hlen : (BitVec.ofNat 16 (4 + 4 * ws.length)).toNat = 4 + (wordBytes env ws).length := by
    rw [BitVec.toNat_ofNat, Nat.mod_eq_of_lt (by omega), wordBytes_length]
  have htype : (mdioNlaData ||| nlaFNested) &&& nlaTypeMask = mdioNlaData := by decide
  have hread := nlAttrs_header env.endian (mdioNlaData ||| nlaFNested) extra hlen (by simp)
  rw [htype] at hread
  simpa [genMsg, genlHdrlen, nlahdr] using hread

/-- The status is found in the ERROR attribute. -/
theorem errorBytes_attrs (env : ReplyEnv) (e : Int) :
    nlAttrs env.endian (errorBytes env e) =
      if e = 0 then [] else [⟨mdioNlaError, env.endian.put32 (BitVec.ofInt 32 e)⟩] := by
  unfold errorBytes
  split
  · exact nlAttrs_nil _
  · have hlen : (8 : BitVec 16).toNat =
        4 + (env.endian.put32 (BitVec.ofInt 32 e)).length := by simp
    have htype : mdioNlaError &&& nlaTypeMask = mdioNlaError := by decide
    have hread := nlAttrs_header env.endian mdioNlaError [] hlen (by simp)
    rw [htype] at hread
    simpa [errorAttr, nlahdr] using hread

/-- The callback on a generic message finds its words and its status. -/
theorem mdioXferCb_genMsg (env : ReplyEnv) {ws : List (BitVec 32)} (hws : ws.length ≤ 16382) {e : Int}
    (hmin : -2 ^ 31 ≤ e) (hmax : e ≤ 0) (y : Received) :
    mdioXferCb env.endian (genMsg env ws (errorBytes env e)) y =
      some ⟨y.words ++ ws, y.errors ++ if e = 0 then [] else [e]⟩ := by
  have hvalue : (BitVec.ofInt 32 e).toInt = e := by
    rw [BitVec.toInt_ofInt]
    exact Int.bmod_eq_of_le (by omega) (by omega)
  have hget : env.endian.get32 (env.endian.put32 (BitVec.ofInt 32 e)) = BitVec.ofInt 32 e := by
    simpa using env.endian.get32_put32 (BitVec.ofInt 32 e) []
  have hwords : words32 env.endian (wordBytes env ws) = ws := words32_flatMap _ _
  have hattrs := genMsg_attrs env hws (errorBytes env e)
  rw [errorBytes_attrs] at hattrs
  unfold mdioXferCb xferAttr nlaFind
  rw [hattrs]
  by_cases he : e = 0
  · simp [he, hwords, mdioNlaData, mdioNlaError]
  · simp [he, hwords, hget, hvalue, mdioNlaData, mdioNlaError]

/-! ## The round trip -/

/-- The buffers sent for the words `ws` and the final status `e`: open, emit,
close. -/
def replyStream (env : ReplyEnv) (ws : List (BitVec 32)) (e : Int) : List (List Byte) :=
  (mdioNlClose env true e (emitAll env ws (mdioNlOpen env Xfer.init).2)).2.sent

/-- What the client should find. -/
def wanted (ws : List (BitVec 32)) (e : Int) : Received where
  words := ws
  errors := if e = 0 then [] else [e]

/-- Full messages are split into one generic message each. -/
theorem splitBuffers_plain {full : List (List (BitVec 32))}
    (hfull : ∀ c ∈ full, c.length ≤ 16382) :
    splitBuffers env.endian (full.map (plainMsg env)) = some (full.map (genMsg env · [])) := by
  induction full with
  | nil => rfl
  | cons c full ih =>
      rw [List.map_cons, splitBuffers, nlMsgs_plainMsg (hfull c List.mem_cons_self),
        ih fun d hd => hfull d (List.mem_cons_of_mem _ hd)]
      rfl

/-- Reading full messages gathers their words. -/
theorem readMsgs_plain (henv : Reliable env) {full : List (List (BitVec 32))}
    (hfull : ∀ c ∈ full, c.length ≤ 16382) (rest : List NlMsg) (y : Received) :
    readMsgs env.endian (full.map (genMsg env · []) ++ rest) y =
      readMsgs env.endian rest ⟨y.words ++ full.flatten, y.errors⟩ := by
  induction full generalizing y with
  | nil => simp
  | cons c full ih =>
      have hcb := mdioXferCb_genMsg env (hfull c List.mem_cons_self) (e := 0) (by decide)
        (by decide) y
      have hnil : errorBytes env 0 = [] := rfl
      rw [hnil] at hcb
      rw [List.map_cons, List.cons_append, readMsgs_generic henv.family, hcb, Option.bind_some,
        ih fun d hd => hfull d (List.mem_cons_of_mem _ hd)]
      simp

/-- Full messages and a final one give the client all words and the status. -/
theorem readReply_final (henv : Reliable env) {full : List (List (BitVec 32))}
    {cur : List (BitVec 32)} {e : Int} (hmin : -2 ^ 31 ≤ e) (hmax : e ≤ 0)
    (hfull : ∀ c ∈ full, c.length ≤ 16382) (hcur : cur.length ≤ 16382) :
    readReply env.endian (full.map (plainMsg env) ++ [finalMsg env cur e]) =
      some (wanted (full.flatten ++ cur) e) := by
  have hfinal : splitBuffers env.endian [finalMsg env cur e] =
      some [genMsg env cur (errorBytes env e), ⟨nlmsgDone, []⟩] := by
    rw [splitBuffers, nlMsgs_finalMsg hcur]
    rfl
  rw [readReply, splitBuffers_append, splitBuffers_plain hfull, hfinal]
  simp only [Option.bind_some, Option.map_some]
  rw [readMsgs_plain henv hfull, readMsgs_generic henv.family,
    mdioXferCb_genMsg env hcur hmin hmax, Option.bind_some]
  simp [readMsgs, wanted, Received.empty]

/-- A broken message has no DATA, so nothing is found in a reply with one. -/
theorem readReply_broken (henv : Reliable env) (pre : List (List Byte)) (y : Received) :
    readReply env.endian (pre ++ [brokenMsg env]) ≠ some y := by
  intro h
  obtain ⟨msgs, hsplit, hread⟩ := Option.bind_eq_some_iff.mp h
  rw [splitBuffers_append] at hsplit
  obtain ⟨before, -, hsplit⟩ := Option.bind_eq_some_iff.mp hsplit
  obtain ⟨last, hlast, rfl⟩ := Option.map_eq_some_iff.mp hsplit
  -- the first message of the buffer is its headers, without an attribute
  let headers : NlMsg := ⟨env.family, [mdioGenlXfer, mdioGenlVersion, 0, 0]⟩
  have hbytes : brokenMsg env = nlHeader env.endian 20 env.family replyFlags env.seq env.portid ++
      headers.payload ++ (nlahdr env 4 (mdioNlaData ||| nlaFNested) ++ doneHdr env) := by
    simp [brokenMsg, replyBytes, nlmsghdr, nlHeader, headers]
  have hmem : headers ∈ last := by
    simp only [splitBuffers, Option.bind_eq_bind, Option.bind_some, Option.bind_eq_some_iff] at hlast
    obtain ⟨msgs, hmsgs, heq⟩ := hlast
    have hlen : (20 : BitVec 32).toNat = 16 + headers.payload.length := by simp [headers]
    rw [hbytes, nlMsgs_header env.endian env.family replyFlags env.seq env.portid _ hlen
      (by simp [headers])] at hmsgs
    obtain ⟨tail, -, rfl⟩ := Option.map_eq_some_iff.mp hmsgs
    simp only [List.append_nil, Option.some.injEq] at heq
    subst heq
    exact List.mem_cons_self
  rcases (readMsgs_some hread).1 headers (List.mem_append_right _ hmem) with hdone | ⟨-, hdata⟩
  · refine henv.family ?_
    rw [show env.family = nlmsgDone from hdone]
    decide
  · simp [xferAttr, headers, genlHdrlen, nlaFind] at hdata

/-! ## Messages too long for their attribute -/

/-- A buffer that starts like a message of the reply has a generic message. -/
theorem genericCount_pos (henv : Reliable env) {msgs : List NlMsg}
    (h : nlMsgs env.endian (replyBytes env len nest body) = some msgs) :
    0 < genericCount msgs := by
  have hbytes : replyBytes env len nest body =
      nlHeader env.endian len env.family replyFlags env.seq env.portid ++
        ([mdioGenlXfer, mdioGenlVersion, 0, 0] ++
          nlahdr env nest (mdioNlaData ||| nlaFNested) ++ body) := by
    simp [replyBytes, nlmsghdr, nlHeader]
  rw [hbytes] at h
  obtain ⟨msg, hmem, htype⟩ := nlMsgs_head h
  refine List.countP_pos_iff.mpr ⟨msg, hmem, ?_⟩
  have hne : msg.type ≠ nlmsgDone := by
    intro hdone
    refine henv.family ?_
    rw [← htype, hdone]
    decide
  simp [hne]

/-- No more words are found in a full message than were put, and fewer if they
are too many for one attribute. -/
theorem wordCount_plainMsg (henv : Reliable env) {ws : List (BitVec 32)} {msgs : List NlMsg}
    (hsplit : nlMsgs env.endian (plainMsg env ws) = some msgs)
    (hparts : ∀ msg ∈ msgs, NlMsg.IsReply env.endian msg) :
    wordCount env.endian msgs ≤ ws.length ∧
      (16382 < ws.length → wordCount env.endian msgs < ws.length) := by
  have hpos := genericCount_pos henv hsplit
  obtain ⟨hroom, hmany⟩ := readReply_bound hsplit hparts
  rw [plainMsg, replyBytes_length, wordBytes_length] at hroom
  omega

/-- The same for a final message. -/
theorem wordCount_finalMsg (henv : Reliable env) {ws : List (BitVec 32)} {e : Int}
    {msgs : List NlMsg} (hsplit : nlMsgs env.endian (finalMsg env ws e) = some msgs)
    (hparts : ∀ msg ∈ msgs, NlMsg.IsReply env.endian msg) (hdone : 0 < doneCount msgs) :
    wordCount env.endian msgs ≤ ws.length ∧
      (16382 < ws.length → wordCount env.endian msgs < ws.length) := by
  by_cases hws : ws.length ≤ 16382
  · rw [nlMsgs_finalMsg hws] at hsplit
    cases hsplit
    have hattrs := genMsg_attrs env hws (errorBytes env e)
    have hfind : xferAttr env.endian (genMsg env ws (errorBytes env e)) mdioNlaData =
        some (wordBytes env ws) := by
      unfold xferAttr nlaFind
      rw [hattrs, errorBytes_attrs]
      split <;> simp [mdioNlaData, mdioNlaError]
    have hwords : words32 env.endian (wordBytes env ws) = ws := words32_flatMap _ _
    have hcount : wordCount env.endian [genMsg env ws (errorBytes env e), ⟨nlmsgDone, []⟩] ≤
        ws.length := by
      simp only [wordCount, NlMsg.dataWords, List.flatMap_cons, hfind, Option.map_some,
        Option.getD_some, hwords]
      split <;> simp
    exact ⟨hcount, fun h => absurd h (by omega)⟩
  · have hpos := genericCount_pos henv hsplit
    obtain ⟨hroom, hmany⟩ := readReply_bound hsplit hparts
    have herror := errorBytes_length env e
    rw [finalMsg, replyBytes_length, List.length_append, List.length_append, wordBytes_length,
      herror, doneHdr_length] at hroom
    split at hroom <;> omega

/-- The same for a list of full messages. -/
theorem wordCount_plain (henv : Reliable env) {full : List (List (BitVec 32))}
    {msgs : List NlMsg} (hsplit : splitBuffers env.endian (full.map (plainMsg env)) = some msgs)
    (hparts : ∀ msg ∈ msgs, NlMsg.IsReply env.endian msg) :
    wordCount env.endian msgs ≤ full.flatten.length ∧
      ((∃ c ∈ full, 16382 < c.length) → wordCount env.endian msgs < full.flatten.length) := by
  induction full generalizing msgs with
  | nil =>
      cases hsplit
      simp [wordCount]
  | cons c full ih =>
      rw [List.map_cons, splitBuffers] at hsplit
      simp only [Option.bind_eq_bind, Option.bind_eq_some_iff, Option.some.injEq] at hsplit
      obtain ⟨first, hfirst, rest, hrest, rfl⟩ := hsplit
      obtain ⟨hle, hlt⟩ := wordCount_plainMsg henv hfirst fun m hm =>
        hparts m (List.mem_append_left _ hm)
      obtain ⟨hle', hlt'⟩ := ih hrest fun m hm => hparts m (List.mem_append_right _ hm)
      rw [wordCount_append, List.flatten_cons, List.length_append]
      refine ⟨by omega, ?_⟩
      rintro ⟨d, hd, hlong⟩
      rcases List.mem_cons.mp hd with rfl | hd
      · have := hlt hlong
        omega
      · have := hlt' ⟨d, hd, hlong⟩
        omega

/-- Where a message is too long for its attribute, words are missing. -/
theorem readReply_short (henv : Reliable env) {full : List (List (BitVec 32))}
    {cur : List (BitVec 32)} {e : Int}
    (hlong : ¬((∀ c ∈ full, c.length ≤ 16382) ∧ cur.length ≤ 16382)) {y : Received}
    (h : readReply env.endian (full.map (plainMsg env) ++ [finalMsg env cur e]) = some y) :
    y.words.length < (full.flatten ++ cur).length := by
  obtain ⟨msgs, hsplit, hread⟩ := Option.bind_eq_some_iff.mp h
  rw [splitBuffers_append] at hsplit
  obtain ⟨before, hbefore, hsplit⟩ := Option.bind_eq_some_iff.mp hsplit
  obtain ⟨tail, hlast, rfl⟩ := Option.map_eq_some_iff.mp hsplit
  simp only [splitBuffers, Option.bind_eq_bind, Option.bind_some, Option.bind_eq_some_iff,
    Option.some.injEq, List.append_nil] at hlast
  obtain ⟨last, hfinal, rfl⟩ := hlast
  obtain ⟨hparts, ⟨done, hdone, htype⟩, hwords⟩ := readMsgs_some hread
  have hcount : y.words.length = wordCount env.endian before + wordCount env.endian last := by
    rw [hwords, ← wordCount_append]
    rfl
  have hlastDone : 0 < doneCount last := by
    have hpos := genericCount_pos henv hfinal
    have hne : last ≠ [] := by
      rintro rfl
      exact absurd hpos (by decide)
    rw [List.getLast?_append_of_ne_nil _ hne] at hdone
    refine List.countP_pos_iff.mpr ⟨done, List.mem_of_getLast? hdone, ?_⟩
    simp [htype]
  obtain ⟨hle, hlt⟩ := wordCount_plain henv hbefore fun m hm =>
    hparts m (List.mem_append_left _ hm)
  obtain ⟨hle', hlt'⟩ := wordCount_finalMsg henv hfinal
    (fun m hm => hparts m (List.mem_append_right _ hm)) hlastDone
  rw [List.length_append, hcount]
  by_cases hcur : cur.length ≤ 16382
  · have hfull : ∃ c ∈ full, 16382 < c.length := by
      by_contra hnone
      refine hlong ⟨fun c hc => ?_, hcur⟩
      by_contra hc'
      exact hnone ⟨c, hc, by omega⟩
    have := hlt hfull
    omega
  · have := hlt' (by omega)
    omega

/-- Nothing is found where the close finds no room. -/
theorem replyStream_broken (henv : Reliable env) {ws : List (BitVec 32)} {e : Int}
    (hfits : ¬CloseFits env (lastFill env ws.length) e) (y : Received) :
    readReply env.endian (replyStream env ws e) ≠ some y := by
  obtain ⟨full, cur, h⟩ := emitAll_chunks henv ws
  have hclose := (h.close henv e).2
  rw [← h.cur_eq] at hfits
  rw [EndsWith, if_neg hfits] at hclose
  obtain ⟨pre, hsent⟩ := hclose
  rw [replyStream, hsent]
  exact readReply_broken henv pre y

/-- If the close finds room, the reply is a list of full messages and a last
one. -/
theorem replyStream_split (henv : Reliable env) {ws : List (BitVec 32)} {e : Int}
    (hfits : CloseFits env (lastFill env ws.length) e) :
    ∃ (full : List (List (BitVec 32))) (cur : List (BitVec 32)),
      replyStream env ws e = full.map (plainMsg env) ++ [finalMsg env cur e] ∧
        full.flatten ++ cur = ws ∧
        (((∀ c ∈ full, c.length ≤ 16382) ∧ cur.length ≤ 16382) ↔
          min ws.length (wordsPerMsg env) ≤ 16382) := by
  obtain ⟨full, cur, h⟩ := emitAll_chunks henv ws
  have hclose := (h.close henv e).2
  rw [← h.cur_eq] at hfits
  rw [EndsWith, if_pos hfits] at hclose
  rw [← h.longest_le_iff]
  rcases hclose with hsent | hsent
  · exact ⟨full, cur, hsent, h.words.symm, Iff.rfl⟩
  · refine ⟨full ++ [cur], [], hsent, by simp [h.words], ?_⟩
    simp only [List.mem_append, List.mem_singleton, or_imp, forall_and, forall_eq,
      List.length_nil, Nat.zero_le, and_true]

/-- Where the close finds room, everything is found unless a message is too
long for its attribute. -/
theorem replyStream_fits (henv : Reliable env) {ws : List (BitVec 32)} {e : Int}
    (hmin : -2 ^ 31 ≤ e) (hmax : e ≤ 0) (hfits : CloseFits env (lastFill env ws.length) e) :
    readReply env.endian (replyStream env ws e) = some (wanted ws e) ↔
      min ws.length (wordsPerMsg env) ≤ 16382 := by
  obtain ⟨full, cur, hsent, hwords, hall⟩ := replyStream_split henv hfits
  rw [← hall, hsent]
  constructor
  · intro hread
    by_contra hlong
    have hshort := readReply_short henv hlong hread
    rw [hwords] at hshort
    exact absurd hshort (lt_irrefl _)
  · rintro ⟨hfull, hcur⟩
    rw [readReply_final henv hmin hmax hfull hcur, hwords]

/-- The client finds the emitted words and the status if and only if the close
of the last message finds room, and no message has more words than an attribute
can hold. -/
theorem replyStream_roundTrip (env : ReplyEnv) (henv : Reliable env) (ws : List (BitVec 32))
    (e : Int) (hmin : -2 ^ 31 ≤ e) (hmax : e ≤ 0) :
    readReply env.endian (replyStream env ws e) = some (wanted ws e) ↔
      CloseFits env (lastFill env ws.length) e ∧ min ws.length (wordsPerMsg env) ≤ 16382 := by
  by_cases hfits : CloseFits env (lastFill env ws.length) e
  · rw [replyStream_fits henv hmin hmax hfits]
    exact (and_iff_right hfits).symm
  · exact iff_of_false (replyStream_broken henv hfits _) fun h => hfits h.1

theorem exampleEnv_reliable : Reliable (exampleEnv []) where
  no_fault := by simp [exampleEnv]
  family := by decide
  room := by decide

/-- 2000 words and a status arrive, of which a message has room for 938. -/
theorem replyStream_roundTrip_flushes :
    wordsPerMsg (exampleEnv []) = 938 ∧
      readReply .little
          (replyStream (exampleEnv []) ((List.range 2000).map (BitVec.ofNat 32)) (-110)) =
        some (wanted ((List.range 2000).map (BitVec.ofNat 32)) (-110)) := by
  have hlen : ((List.range 2000).map (BitVec.ofNat 32)).length = 2000 := by
    rw [List.length_map, List.length_range]
  refine ⟨by decide, (replyStream_roundTrip (exampleEnv []) exampleEnv_reliable _ (-110)
    (by decide) (by decide)).mpr ?_⟩
  rw [hlen]
  decide

/-- Of 935 words, which leave 12 bytes of a message, the client finds nothing it
accepts. -/
theorem replyStream_loses_done :
    Reliable (exampleEnv []) ∧
      readReply .little (replyStream (exampleEnv []) (List.replicate 935 0) 0) ≠
        some (wanted (List.replicate 935 0) 0) := by
  refine ⟨exampleEnv_reliable, replyStream_broken exampleEnv_reliable ?_ _⟩
  rw [List.length_replicate]
  decide

/-! ## The handler's reply -/

/-- What a handled request sends, if its program ran, is the reply stream of
some words and the status of the run. -/
theorem mdioNlCmdXfer_sent {β : Type} {findBus : List Byte → Option (MiiBus β)}
    {late : BitVec 32 → Nat → Bool} {attrs : GenlAttrs} {b : β} {fuel : Nat}
    {out : XferOutcome β} (henv : Reliable env)
    (h : mdioNlCmdXfer env findBus late attrs b fuel = some out) (hran : out.ran ≠ none) :
    ∃ ws ret, out.err = 0 ∧ out.xfer.sent = replyStream env ws ret := by
  rcases mdioNlCmdXfer_cases h with ⟨hnone, -⟩ | ⟨hnone, -⟩ |
    ⟨-, prog, bus, lateAt, why, ret, h', b', ⟨n, hn⟩, rfl⟩
  · exact absurd hnone hran
  · exact absurd hnone hran
  · let I : XferHost → Prop := fun host =>
      ∃ ws, host.xfer = emitAll env ws (mdioNlOpen env Xfer.init).2
    have hemit : ∀ w host, I host → I ((xferHost env lateAt).emit w host).2 := by
      rintro w host ⟨ws, hws⟩
      refine ⟨ws ++ [w], ?_⟩
      simp only [xferHost, hws]
      simp [emitAll]
    obtain ⟨ws, hws⟩ := (mdioNlEval_host (I := I) (Q := fun _ => I) (fun _ hh => hh)
      (fun w host hh _ => hemit w host hh) (fun w host hh _ => hemit w host hh)
      (fun _ _ hh => hh) b ⟨[], rfl⟩ n).2 why ret h' b' hn
    obtain ⟨full, cur, hemitted⟩ := emitAll_chunks henv ws
    refine ⟨ws, ret, ?_, ?_⟩
    · rw [xferFinish, hws]
      exact (hemitted.close henv ret).1
    · rw [xferFinish, hws]
      rfl

end MdioTools.System
