import MdioTools.Kernel.Eval
import MdioTools.Library.Bytes

/-!
# Reply messages of the kernel module

A request is answered by generic netlink messages.  {lit}`mdio_nl_open`
allocates one and starts the DATA nest, {lit}`mdio_nl_emit` appends a word, and
when a message is full {lit}`mdio_nl_flush` closes it, which sends it, and
opens the next.  {lit}`mdio_nl_close` also puts the final status and the
NLMSG_DONE header, and flushes when one of them does not fit.

The socket-buffer calls are the kernel's: a put appends if there is tail room,
and ending a nest or a message stores a length taken from the current tail.
Each fallible call also asks a fault pattern, so that any of them can fail at
any time.  A log records every call with the message it was made on.

Main results:

- Definitions {lit}`mdioNlFlush` and {lit}`mdioNlClose`: the mutual recursion
  of the source, which ends because a flush closes with nothing more to put.
- Theorem {lit}`mdioNlFlush_eq`: a flush ends the nest and the message, sends
  it, and opens the next one.
- Theorem {lit}`mdioNlClose_stages`: the close is two puts that may flush, each
  with the same error path, and a send.
-/

namespace MdioTools.Kernel

open Library

/-! ## Netlink words -/

/-- `NLMSG_DONE`. -/
def nlmsgDone : BitVec 16 := 3

/-- `NLM_F_ACK | NLM_F_MULTI`. -/
def replyFlags : BitVec 16 := 6

/-- `MDIO_GENL_XFER` and the family's version. -/
def mdioGenlXfer : BitVec 8 := 1
def mdioGenlVersion : BitVec 8 := 1

/-- `MDIO_NLA_BUS_ID` to `MDIO_NLA_ERROR`. -/
def mdioNlaBusId : BitVec 16 := 1
def mdioNlaTimeout : BitVec 16 := 2
def mdioNlaProg : BitVec 16 := 3
def mdioNlaData : BitVec 16 := 4
def mdioNlaError : BitVec 16 := 5

/-- `NLA_F_NESTED`. -/
def nlaFNested : BitVec 16 := 0x8000

/-- `NLMSG_HDRLEN`, `GENL_HDRLEN` and `NLA_HDRLEN`. -/
def nlmsgHdrlen : Nat := 16
def genlHdrlen : Nat := 4
def nlaHdrlen : Nat := 4

/-! ## Messages, calls and the log -/

/-- A call of the socket-buffer and netlink interface. -/
inductive SkbCall
  | nlmsgNew | genlmsgPut | nlaNestStart | nlaPutNohdr | nlaNestEnd | nlaPut | genlmsgEnd
  | nlmsgPut | genlmsgUnicast | nlmsgFree
deriving DecidableEq, Repr

/-- An entry of the log: a call on a message ({lean}`none` is the NULL pointer)
and whether it succeeded, or the return of `mdio_nl_flush`. -/
inductive SkbEvent
  | call (c : SkbCall) (msg : Option Nat) (ok : Bool)
  | flushed (err : Int)
deriving DecidableEq, Repr

/-- A socket buffer: its identity and the bytes up to the tail. -/
structure SkBuff where
  id : Nat
  data : List Byte

/-- What does not change while a request is handled: the byte order, the room
of a new message, the header fields of replies, and the fault pattern.  The
`n`-th fallible call fails if `fault n` is not 0, which is then the errno. -/
structure ReplyEnv where
  endian : Endian
  capacity : Nat
  family : BitVec 16
  portid : BitVec 32
  seq : BitVec 32
  fault : Nat → Nat

/-- A host with pages of 4096 bytes, on which the calls with the given numbers
fail with `-EAGAIN`. -/
def exampleEnv (bad : List Nat) : ReplyEnv where
  endian := .little
  capacity := 3776
  family := 24
  portid := 1
  seq := 1
  fault n := if n ∈ bad then 11 else 0

/-- The message part of `struct mdio_nl_xfer`, with what the kernel keeps: the
number of fallible calls made, the next message identity, the messages sent
and the log.  `hdr` and `data` are offsets into the message. -/
structure Xfer where
  msg : Option SkBuff
  hdr : Option Nat
  data : Option Nat
  calls : Nat
  nextId : Nat
  sent : List (List Byte)
  log : List SkbEvent

/-- Before the first message. -/
def Xfer.init : Xfer where
  msg := none
  hdr := none
  data := none
  calls := 0
  nextId := 0
  sent := []
  log := []

/-- The identity of the message `xfer->msg` points to. -/
def Xfer.msgId (x : Xfer) : Option Nat :=
  x.msg.map SkBuff.id

/-- Record a call on the current message. -/
def Xfer.record (x : Xfer) (c : SkbCall) (ok : Bool) : Xfer :=
  { x with log := x.log ++ [.call c x.msgId ok] }

/-! ## The socket-buffer interface -/

/-- Append bytes at the tail if there is room, as every put does. -/
def skbAppend (env : ReplyEnv) (c : SkbCall) (bytes : List Byte) (x : Xfer) : Bool × Xfer :=
  match x.msg with
  | none => (false, { x with calls := x.calls + 1 }.record c false)
  | some m =>
      if env.fault x.calls ≠ 0 ∨ env.capacity < m.data.length + bytes.length then
        (false, { x with calls := x.calls + 1 }.record c false)
      else
        (true, { x with
          msg := some { m with data := m.data ++ bytes }
          calls := x.calls + 1 }.record c true)

/-- The tail offset of the current message. -/
def Xfer.tail (x : Xfer) : Nat :=
  match x.msg with
  | none => 0
  | some m => m.data.length

/-- Overwrite bytes of the current message. -/
def Xfer.patch (x : Xfer) (off : Nat) (bytes : List Byte) : Xfer :=
  { x with msg := x.msg.map fun m => { m with data := Library.patch m.data off bytes } }

/-- The bytes of a netlink header. -/
def nlmsghdr (env : ReplyEnv) (len : BitVec 32) (type : BitVec 16) : List Byte :=
  env.endian.put32 len ++ env.endian.put16 type ++ env.endian.put16 replyFlags ++
    env.endian.put32 env.seq ++ env.endian.put32 env.portid

/-- The bytes of an attribute header. -/
def nlahdr (env : ReplyEnv) (len type : BitVec 16) : List Byte :=
  env.endian.put16 len ++ env.endian.put16 type

/-- `nlmsg_new(NLMSG_DEFAULT_SIZE, GFP_KERNEL)`. -/
def nlmsgNew (env : ReplyEnv) (x : Xfer) : Bool × Xfer :=
  if env.fault x.calls ≠ 0 then
    (false, { x with msg := none, calls := x.calls + 1 }.record .nlmsgNew false)
  else
    (true, { x with
      msg := some ⟨x.nextId, []⟩
      calls := x.calls + 1
      nextId := x.nextId + 1 }.record .nlmsgNew true)

/-- `genlmsg_put`: the netlink header and the generic header. -/
def genlmsgPut (env : ReplyEnv) (x : Xfer) : Bool × Xfer :=
  let off := x.tail
  let r := skbAppend env .genlmsgPut
    (nlmsghdr env 20 env.family ++ [mdioGenlXfer, mdioGenlVersion, 0, 0]) x
  (r.1, { r.2 with hdr := if r.1 then some (off + nlmsgHdrlen + genlHdrlen) else none })

/-- `nla_nest_start(msg, MDIO_NLA_DATA)`. -/
def nlaNestStart (env : ReplyEnv) (x : Xfer) : Bool × Xfer :=
  let off := x.tail
  let r := skbAppend env .nlaNestStart (nlahdr env 4 (mdioNlaData ||| nlaFNested)) x
  (r.1, { r.2 with data := if r.1 then some off else none })

/-- `nla_nest_end(msg, data)`: the length of the nest is the distance to the
tail. -/
def nlaNestEnd (env : ReplyEnv) (x : Xfer) : Xfer :=
  (x.patch (x.data.getD 0)
    (env.endian.put16 (BitVec.ofNat 16 (x.tail - x.data.getD 0)))).record .nlaNestEnd true

/-- `nla_put_nohdr(msg, sizeof(datum), &datum)`. -/
def nlaPutNohdr (env : ReplyEnv) (datum : BitVec 32) (x : Xfer) : Int × Xfer :=
  let r := skbAppend env .nlaPutNohdr (env.endian.put32 datum) x
  (if r.1 then 0 else -emsgsize, r.2)

/-- `nla_put_s32(msg, MDIO_NLA_ERROR, xerr)`. -/
def nlaPutS32 (env : ReplyEnv) (xerr : Int) (x : Xfer) : Int × Xfer :=
  let r := skbAppend env .nlaPut
    (nlahdr env 8 mdioNlaError ++ env.endian.put32 (BitVec.ofInt 32 xerr)) x
  (if r.1 then 0 else -emsgsize, r.2)

/-- `genlmsg_end(msg, hdr)`: the length of the message that starts at the
netlink header is the distance to the tail. -/
def genlmsgEnd (env : ReplyEnv) (x : Xfer) : Xfer :=
  let off := x.hdr.getD 0 - genlHdrlen - nlmsgHdrlen
  (x.patch off (env.endian.put32 (BitVec.ofNat 32 (x.tail - off)))).record .genlmsgEnd true

/-- `nlmsg_put(msg, portid, seq, NLMSG_DONE, 0, flags)`. -/
def nlmsgPutDone (env : ReplyEnv) (x : Xfer) : Bool × Xfer :=
  skbAppend env .nlmsgPut (nlmsghdr env 16 nlmsgDone) x

/-- `genlmsg_unicast`, which consumes the message also when it fails. -/
def genlmsgUnicast (env : ReplyEnv) (x : Xfer) : Int × Xfer :=
  let x' := { x with calls := x.calls + 1 }
  if env.fault x.calls ≠ 0 then
    (-(env.fault x.calls : Int), x'.record .genlmsgUnicast false)
  else
    (0, { x' with sent := x.sent ++ (x.msg.map SkBuff.data).toList }.record .genlmsgUnicast true)

/-- `nlmsg_free`, which does nothing to the NULL pointer. -/
def nlmsgFree (x : Xfer) : Xfer :=
  x.record .nlmsgFree true

/-! ## Opening, closing and flushing -/

/-- `mdio_nl_open`. -/
def mdioNlOpen (env : ReplyEnv) (x : Xfer) : Int × Xfer :=
  let new := nlmsgNew env x
  if !new.1 then (-enomem, new.2)
  else
    let put := genlmsgPut env new.2
    if !put.1 then (-emsgsize, nlmsgFree put.2)
    else
      let nest := nlaNestStart env put.2
      if !nest.1 then (-emsgsize, nlmsgFree nest.2)
      else (0, nest.2)

mutual

/-- `mdio_nl_flush`; its return is recorded. -/
def mdioNlFlush (env : ReplyEnv) (x : Xfer) : Int × Xfer :=
  let closed := mdioNlClose env false 0 x
  let r := if closed.1 ≠ 0 then closed else mdioNlOpen env closed.2
  (r.1, { r.2 with log := r.2.log ++ [.flushed r.1] })
termination_by 1

/-- `mdio_nl_close`.  The label `err_free` is reached with an error from the
status or from the DONE header. -/
def mdioNlClose (env : ReplyEnv) (last : Bool) (xerr : Int) (x : Xfer) : Int × Xfer :=
  let x := nlaNestEnd env x
  let status : Int × Xfer :=
    if _h : xerr ≠ 0 then
      let put := nlaPutS32 env xerr x
      if put.1 ≠ 0 then
        let flush := mdioNlFlush env put.2
        if flush.1 ≠ 0 then flush
        else
          let again := nlaPutS32 env xerr flush.2
          (if again.1 ≠ 0 then -emsgsize else 0, again.2)
      else put
    else (0, x)
  if status.1 ≠ 0 then (status.1, nlmsgFree status.2)
  else
    let x := genlmsgEnd env status.2
    let done : Int × Xfer :=
      if _h : last = true then
        let put := nlmsgPutDone env x
        if !put.1 then
          let flush := mdioNlFlush env put.2
          if flush.1 ≠ 0 then flush
          else
            let again := nlmsgPutDone env flush.2
            (if !again.1 then -emsgsize else 0, again.2)
        else (0, put.2)
      else (0, x)
    if done.1 ≠ 0 then (done.1, nlmsgFree done.2)
    else genlmsgUnicast env done.2
termination_by if xerr ≠ 0 ∨ last = true then 2 else 0
decreasing_by all_goals simp_all

end

/-- `mdio_nl_emit`. -/
def mdioNlEmit (env : ReplyEnv) (datum : BitVec 32) (x : Xfer) : Int × Xfer :=
  let put := nlaPutNohdr env datum x
  if put.1 = 0 then put
  else
    let flush := mdioNlFlush env put.2
    if flush.1 ≠ 0 then flush else nlaPutNohdr env datum flush.2

/-! ## Equations -/

/-- Closing with nothing more to put ends the nest and the message and sends
it. -/
theorem mdioNlClose_plain (env : ReplyEnv) (x : Xfer) :
    mdioNlClose env false 0 x = genlmsgUnicast env (genlmsgEnd env (nlaNestEnd env x)) := by
  rw [mdioNlClose]
  simp

/-- A flush ends the nest and the message, sends it, and opens the next. -/
theorem mdioNlFlush_eq (env : ReplyEnv) (x : Xfer) :
    mdioNlFlush env x =
      let sent := genlmsgUnicast env (genlmsgEnd env (nlaNestEnd env x))
      let r := if sent.1 ≠ 0 then sent else mdioNlOpen env sent.2
      (r.1, { r.2 with log := r.2.log ++ [.flushed r.1] }) := by
  rw [mdioNlFlush, mdioNlClose_plain]

/-- Put bytes; if they do not fit, flush and put them into the next message.
The data word, the ERROR attribute and the DONE header are all put this way. -/
def putRetry (env : ReplyEnv) (c : SkbCall) (bytes : List Byte) (x : Xfer) : Int × Xfer :=
  let put := skbAppend env c bytes x
  if put.1 then (0, put.2)
  else
    let flush := mdioNlFlush env put.2
    if flush.1 ≠ 0 then flush
    else
      let again := skbAppend env c bytes flush.2
      (if again.1 then 0 else -emsgsize, again.2)

/-- The bytes of the ERROR attribute. -/
def errorAttr (env : ReplyEnv) (xerr : Int) : List Byte :=
  nlahdr env 8 mdioNlaError ++ env.endian.put32 (BitVec.ofInt 32 xerr)

/-- The bytes of the NLMSG_DONE header. -/
def doneHdr (env : ReplyEnv) : List Byte :=
  nlmsghdr env 16 nlmsgDone

theorem mdioNlEmit_eq (env : ReplyEnv) (datum : BitVec 32) (x : Xfer) :
    mdioNlEmit env datum x = putRetry env .nlaPutNohdr (env.endian.put32 datum) x := by
  unfold mdioNlEmit putRetry nlaPutNohdr
  cases hput : (skbAppend env .nlaPutNohdr (env.endian.put32 datum) x).1 <;>
    simp [hput, emsgsize]

theorem putRetry_status (env : ReplyEnv) (xerr : Int) (x : Xfer) :
    (let put := nlaPutS32 env xerr x
      if put.1 ≠ 0 then
        let flush := mdioNlFlush env put.2
        if flush.1 ≠ 0 then flush
        else
          let again := nlaPutS32 env xerr flush.2
          (if again.1 ≠ 0 then -emsgsize else 0, again.2)
      else put) = putRetry env .nlaPut (errorAttr env xerr) x := by
  have hput : ∀ y, nlaPutS32 env xerr y =
      (if (skbAppend env .nlaPut (errorAttr env xerr) y).1 then 0 else -emsgsize,
        (skbAppend env .nlaPut (errorAttr env xerr) y).2) := fun y => rfl
  have hneg : (-emsgsize : Int) ≠ 0 := by decide
  simp only [putRetry, hput]
  by_cases hfirst : (skbAppend env .nlaPut (errorAttr env xerr) x).1 = true
  · simp [hfirst]
  · simp only [hfirst, Bool.false_eq_true, if_false, ne_eq, hneg, not_false_eq_true, if_true]
    congr 2
    split_ifs <;> simp_all

theorem putRetry_done (env : ReplyEnv) (x : Xfer) :
    (let put := nlmsgPutDone env x
      if !put.1 then
        let flush := mdioNlFlush env put.2
        if flush.1 ≠ 0 then flush
        else
          let again := nlmsgPutDone env flush.2
          (if !again.1 then -emsgsize else 0, again.2)
      else (0, put.2)) = putRetry env .nlmsgPut (doneHdr env) x := by
  have hput : ∀ y, nlmsgPutDone env y = skbAppend env .nlmsgPut (doneHdr env) y := fun y => rfl
  simp only [putRetry, hput]
  by_cases hfirst : (skbAppend env .nlmsgPut (doneHdr env) x).1 = true
  · simp [hfirst]
  · simp only [hfirst, Bool.not_false, if_true, Bool.false_eq_true, if_false]
    congr 2
    split_ifs <;> simp_all

/-- The close in terms of the three puts. -/
theorem mdioNlClose_eq (env : ReplyEnv) (last : Bool) (xerr : Int) (x : Xfer) :
    mdioNlClose env last xerr x =
      let nested := nlaNestEnd env x
      let status := if xerr ≠ 0 then putRetry env .nlaPut (errorAttr env xerr) nested
        else (0, nested)
      if status.1 ≠ 0 then (status.1, nlmsgFree status.2)
      else
        let ended := genlmsgEnd env status.2
        let done := if last then putRetry env .nlmsgPut (doneHdr env) ended
          else (0, ended)
        if done.1 ≠ 0 then (done.1, nlmsgFree done.2) else genlmsgUnicast env done.2 := by
  rw [mdioNlClose]
  simp only [dite_eq_ite, ← putRetry_status, ← putRetry_done]

/-- A stage of the close: put something unless there is nothing to put, go to
`err_free` if that fails, and go on with `k` otherwise. -/
def closeStage (env : ReplyEnv) (c : SkbCall) (bytes : List Byte) (wanted : Bool)
    (k : Xfer → Int × Xfer) (x : Xfer) : Int × Xfer :=
  let r := if wanted then putRetry env c bytes x else (0, x)
  if r.1 ≠ 0 then (r.1, nlmsgFree r.2) else k r.2

/-- The close is two stages and a send. -/
theorem mdioNlClose_stages (env : ReplyEnv) (last : Bool) (xerr : Int) (x : Xfer) :
    mdioNlClose env last xerr x =
      closeStage env .nlaPut (errorAttr env xerr) (decide (xerr ≠ 0))
        (fun y => closeStage env .nlmsgPut (doneHdr env) last (genlmsgUnicast env)
          (genlmsgEnd env y)) (nlaNestEnd env x) := by
  rw [mdioNlClose_eq]
  simp only [closeStage, decide_eq_true_eq]

end MdioTools.Kernel
