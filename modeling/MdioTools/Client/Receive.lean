import MdioTools.Client.Request
import MdioTools.Client.XferCb

/-!
# The receive path and its callbacks

{lit}`msg_recv` takes one buffer after another from the socket and walks over
the messages in it, until a handler says that it is over.  {lit}`mdio_xfer_cb`
is the handler of generic messages, and calls the callback of the operation.
Each call is recorded.

Main results:

- Definition {lit}`mdioXferReceive`: what the receive path makes of the buffers
  of a reply.
- Theorem {lit}`mnlCbRun_eq`: a buffer that is used up by its messages is
  handled message by message.
-/

namespace MdioTools.Client

open Library Kernel

/-! ## Callbacks -/

/-- `MNL_CB_OK`, `MNL_CB_STOP` and `MNL_CB_ERROR`. -/
inductive MnlCb
  | ok | stop | error
deriving DecidableEq, Repr

/-- `mdio_xfer_cb_t`: from the words, the status and the state of the operation
to a return value and a new state. -/
abbrev OpCallback (σ : Type) : Type :=
  List (BitVec 32) → Int → σ → Int × σ

/-- `mdio_common_raw_read_cb`, with the values printed. -/
def mdioCommonRawReadCb : OpCallback (List (BitVec 32)) := fun data err out =>
  if data.length ≠ 1 then (1, out) else (err, out ++ data)

/-- `mdio_common_raw_write_cb`. -/
def mdioCommonRawWriteCb : OpCallback (List (BitVec 32)) := fun data err out =>
  if data.length ≠ 0 then (1, out) else (err, out)

/-- `mdio_common_bench_cb`, with the incorrect values printed. -/
def mdioCommonBenchCb : OpCallback (List (BitVec 32)) := fun data err out =>
  (if data.length ≠ 0 then 1 else err, out ++ data)

/-- `struct mdio_xfer_data`, and the calls of the callback so far. -/
structure XferData (σ : Type) where
  err : Int
  arg : σ
  calls : List (List (BitVec 32) × Int)

variable {σ : Type}

/-- Call the callback of the operation. -/
def XferData.call (x : XferData σ) (cb : OpCallback σ) (data : List (BitVec 32)) :
    MnlCb × XferData σ :=
  let r := cb data x.err x.arg
  (if r.1 ≠ 0 then .error else .ok, { x with arg := r.2, calls := x.calls ++ [(data, x.err)] })

/-- `mdio_xfer_cb` for an operation. -/
def mdioXferCbFor (e : Endian) (cb : OpCallback σ) (msg : NlMsg) (x : XferData σ) :
    MnlCb × XferData σ :=
  let x := match xferAttr e msg mdioNlaError with
    | some payload => { x with err := (e.get32 payload).toInt }
    | none => x
  match xferAttr e msg mdioNlaData with
  | none => (.error, x)
  | some payload => x.call cb (words32 e payload)

/-! ## Buffers -/

/-- `NLMSG_ERROR`, which acknowledges a request. -/
def nlmsgError : BitVec 16 := 2

/-- The dispatch of `mnl_cb_run`: DONE ends the reply, an ERROR message ends it
with its error, and other control messages are passed over. -/
def mnlHandle (e : Endian) (cb : OpCallback σ) (msg : NlMsg) (x : XferData σ) :
    MnlCb × XferData σ :=
  if ¬msg.type < nlmsgMinType then mdioXferCbFor e cb msg x
  else if msg.type = nlmsgDone then (.stop, x)
  else if msg.type = nlmsgError then
    (if e.get32 msg.payload = 0 then .stop else .error, x)
  else (.ok, x)

/-- The loop of `mnl_cb_run` over the messages in a buffer. -/
def mnlCbRun (e : Endian) (cb : OpCallback σ) (buf : List Byte) (x : XferData σ) :
    MnlCb × XferData σ :=
  if _h : 16 ≤ (e.get32 buf).toNat ∧ (e.get32 buf).toNat ≤ buf.length then
    let r := mnlHandle e cb ⟨e.get16 (buf.drop 4), (buf.take (e.get32 buf).toNat).drop 16⟩ x
    if r.1 = .ok then mnlCbRun e cb (buf.drop (align4 (e.get32 buf).toNat)) r.2 else r
  else (.ok, x)
termination_by buf.length
decreasing_by
  have := le_align4 (e.get32 buf).toNat
  simp only [List.length_drop]
  omega

/-- `msg_recv`: a buffer that does not fit is an error, and behind the last
buffer the socket waits for ever. -/
def msgRecv (e : Endian) (cb : OpCallback σ) : List (List Byte) → XferData σ →
    Option (MnlCb × XferData σ)
  | [], _ => none
  | buf :: rest, x =>
      if bufLen < buf.length then some (.error, x)
      else
        let r := mnlCbRun e cb buf x
        if r.1 = .ok then msgRecv e cb rest r.2 else some r

/-- The end of `mdio_xfer_timeout`: the return value and what the callback has
been called with. -/
def mdioXferReceive (e : Endian) (cb : OpCallback σ) (arg : σ) (bufs : List (List Byte)) :
    Option (Int × XferData σ) :=
  (msgRecv e cb bufs ⟨0, arg, []⟩).map fun r =>
    (if r.2.err ≠ 0 then r.2.err else if r.1 = .error then -1 else 0, r.2)

/-! ## Message by message -/

/-- The messages of a buffer one after another. -/
def handleMsgs (e : Endian) (cb : OpCallback σ) : List NlMsg → XferData σ → MnlCb × XferData σ
  | [], x => (.ok, x)
  | msg :: rest, x =>
      let r := mnlHandle e cb msg x
      if r.1 = .ok then handleMsgs e cb rest r.2 else r

/-- A buffer that is used up by its messages is handled message by message. -/
theorem mnlCbRun_eq {e : Endian} (cb : OpCallback σ) {buf : List Byte} {msgs : List NlMsg}
    (h : nlMsgs e buf = some msgs) (x : XferData σ) :
    mnlCbRun e cb buf x = handleMsgs e cb msgs x := by
  fun_induction nlMsgs e buf generalizing msgs x with
  | case1 =>
      cases h
      have hempty : ¬(16 ≤ (e.get32 []).toNat ∧ (e.get32 []).toNat ≤ ([] : List Byte).length) := by
        simp only [List.length_nil]
        omega
      rw [mnlCbRun, dif_neg hempty]
      rfl
  | case2 buf hne hfit ih =>
      simp only [Option.map_eq_some_iff] at h
      obtain ⟨tail, htail, rfl⟩ := h
      rw [mnlCbRun, dif_pos hfit, handleMsgs]
      simp only
      split
      · exact ih htail _
      · rfl
  | case3 => cases h

theorem mnlHandle_generic {e : Endian} (cb : OpCallback σ) {msg : NlMsg} (x : XferData σ)
    (h : ¬msg.type < nlmsgMinType) : mnlHandle e cb msg x = mdioXferCbFor e cb msg x :=
  if_pos h

end MdioTools.Client
