import MdioTools.Kernel.Reply
import MdioTools.Library.Netlink

/-!
# Receiving a reply

The client reads buffers until a message says that the reply is done.
{lit}`mdio_xfer_cb` is called on every generic message: it keeps the status of
an ERROR attribute and hands the words of the DATA attribute to the callback of
the operation; without a DATA attribute it fails.

Main results:

- Definition {lit}`readReply`: what the client finds in a reply, if each
  generic message has DATA and the only NLMSG_DONE comes last.
- Theorem {lit}`readReply_bound`: the words found in a buffer are bounded by its
  length.
-/

namespace MdioTools.Client

open Library Kernel

/-- What has been received: the words given to the callback and the statuses
found, the last of which is `xfer.err`. -/
structure Received where
  words : List (BitVec 32)
  errors : List Int
deriving DecidableEq

/-- Nothing received yet. -/
def Received.empty : Received where
  words := []
  errors := []

/-- `tb[type]` after `mnl_attr_parse` over a generic message. -/
def xferAttr (e : Endian) (msg : NlMsg) (type : BitVec 16) : Option (List Byte) :=
  nlaFind (nlAttrs e (msg.payload.drop genlHdrlen)) type

/-- `mdio_xfer_cb`; {lean}`none` is `MNL_CB_ERROR`. -/
def mdioXferCb (e : Endian) (msg : NlMsg) (x : Received) : Option Received :=
  let x := match xferAttr e msg mdioNlaError with
    | some payload => { x with errors := x.errors ++ [(e.get32 payload).toInt] }
    | none => x
  match xferAttr e msg mdioNlaData with
  | none => none
  | some payload => some { x with words := x.words ++ words32 e payload }

/-- The messages of a reply: generic ones, for which the callback is called,
and NLMSG_DONE at the end. -/
def readMsgs (e : Endian) : List NlMsg → Received → Option Received
  | [], _ => none
  | msg :: rest, x =>
      if msg.type = nlmsgDone then
        if rest = [] then some x else none
      else if msg.type < nlmsgMinType then none
      else (mdioXferCb e msg x).bind (readMsgs e rest)

/-- The messages of all buffers in order. -/
def splitBuffers (e : Endian) : List (List Byte) → Option (List NlMsg)
  | [] => some []
  | buf :: rest => do
      let msgs ← nlMsgs e buf
      let more ← splitBuffers e rest
      some (msgs ++ more)

/-- What the client finds in the buffers of a reply. -/
def readReply (e : Endian) (bufs : List (List Byte)) : Option Received :=
  (splitBuffers e bufs).bind fun msgs => readMsgs e msgs Received.empty

/-! ## Messages of a buffer -/

theorem splitBuffers_append {e : Endian} {bufs bufs' : List (List Byte)} :
    splitBuffers e (bufs ++ bufs') = (splitBuffers e bufs).bind fun msgs =>
      (splitBuffers e bufs').map (msgs ++ ·) := by
  induction bufs with
  | nil => simp [splitBuffers]
  | cons buf bufs ih =>
      simp only [List.cons_append, splitBuffers, ih]
      cases nlMsgs e buf <;> cases splitBuffers e bufs <;> cases splitBuffers e bufs' <;> simp

/-- A message in front of a reply is handled first. -/
theorem readMsgs_generic {e : Endian} {msg : NlMsg} {rest : List NlMsg} {x : Received}
    (h : ¬msg.type < nlmsgMinType) :
    readMsgs e (msg :: rest) x = (mdioXferCb e msg x).bind (readMsgs e rest) := by
  have hdone : msg.type ≠ nlmsgDone := by
    rintro heq
    rw [heq] at h
    exact h (by decide)
  rw [readMsgs, if_neg hdone, if_neg h]

/-! ## Bounds -/

/-- The words that a message gives to the callback. -/
def NlMsg.dataWords (e : Endian) (msg : NlMsg) : List (BitVec 32) :=
  if msg.type = nlmsgDone then []
  else ((xferAttr e msg mdioNlaData).map (words32 e)).getD []

/-- A message is a part of a reply: NLMSG_DONE, or a generic message that has a
DATA attribute. -/
def NlMsg.IsReply (e : Endian) (msg : NlMsg) : Prop :=
  msg.type = nlmsgDone ∨
    ¬msg.type < nlmsgMinType ∧ (xferAttr e msg mdioNlaData).isSome = true

/-- The messages of a reply are parts of it, the last is NLMSG_DONE, and the
words found are those of the messages in order. -/
theorem readMsgs_some {e : Endian} {msgs : List NlMsg} {x y : Received}
    (h : readMsgs e msgs x = some y) :
    (∀ msg ∈ msgs, NlMsg.IsReply e msg) ∧ (∃ msg, msgs.getLast? = some msg ∧ msg.type = nlmsgDone) ∧
      y.words = x.words ++ msgs.flatMap (NlMsg.dataWords e) := by
  induction msgs generalizing x with
  | nil => cases h
  | cons msg rest ih =>
      rw [readMsgs] at h
      split at h
      · rename_i hdone
        split at h
        · rename_i hrest
          cases h
          subst hrest
          refine ⟨?_, ⟨msg, rfl, hdone⟩, by simp [NlMsg.dataWords, hdone]⟩
          intro m hm
          cases List.mem_singleton.mp hm
          exact Or.inl hdone
        · cases h
      · rename_i hdone
        split at h
        · cases h
        · rename_i hmin
          obtain ⟨z, hcb, hrest⟩ := Option.bind_eq_some_iff.mp h
          obtain ⟨hparts, ⟨last, hlast, htype⟩, hwords⟩ := ih hrest
          unfold mdioXferCb at hcb
          cases hdata : xferAttr e msg mdioNlaData with
          | none => simp [hdata] at hcb
          | some payload =>
              have hz : z.words = x.words ++ words32 e payload := by
                simp only [hdata, Option.some.injEq] at hcb
                subst hcb
                cases xferAttr e msg mdioNlaError <;> rfl
              refine ⟨?_, ⟨last, ?_, htype⟩, ?_⟩
              · intro m hm
                rcases List.mem_cons.mp hm with rfl | hm
                · exact Or.inr ⟨hmin, by rw [hdata]; rfl⟩
                · exact hparts m hm
              · rw [List.getLast?_cons, hlast]
                rfl
              · rw [hwords, hz, List.flatMap_cons]
                simp [NlMsg.dataWords, hdone, hdata]

/-- The bytes that a part of a reply takes at least: a generic message takes
headers of 24 bytes and its words, NLMSG_DONE takes 16. -/
def NlMsg.least (e : Endian) (msg : NlMsg) : Nat :=
  if msg.type = nlmsgDone then 16 else 24 + 4 * (NlMsg.dataWords e msg).length

/-- A part of a reply is at least as long as its words make it, and has no more
than 16382 of them. -/
theorem NlMsg.IsReply.bound {e : Endian} {msg : NlMsg} (h : NlMsg.IsReply e msg) :
    NlMsg.least e msg ≤ msg.size ∧ (NlMsg.dataWords e msg).length ≤ 16382 := by
  unfold NlMsg.least NlMsg.dataWords NlMsg.size
  rcases h with hdone | ⟨hmin, hdata⟩
  · simp [hdone]
  · obtain ⟨payload, hpayload⟩ := Option.isSome_iff_exists.mp hdata
    obtain ⟨attr, hattr, -, rfl⟩ := nlaFind_mem hpayload
    have hsize := nlAttrs_size hattr
    have hwords := words32_length_le e attr.payload
    simp only [List.length_drop, genlHdrlen] at hsize
    split
    · simp
    · simp only [hpayload, Option.map_some, Option.getD_some]
      omega

/-- The number of words that a list of messages gives to the callback. -/
def wordCount (e : Endian) (msgs : List NlMsg) : Nat :=
  (msgs.flatMap (NlMsg.dataWords e)).length

/-- The number of NLMSG_DONE in a list of messages, and of other messages. -/
def doneCount (msgs : List NlMsg) : Nat :=
  msgs.countP fun msg => decide (msg.type = nlmsgDone)

def genericCount (msgs : List NlMsg) : Nat :=
  msgs.countP fun msg => !decide (msg.type = nlmsgDone)

@[simp]
theorem wordCount_append (e : Endian) (msgs msgs' : List NlMsg) :
    wordCount e (msgs ++ msgs') = wordCount e msgs + wordCount e msgs' := by
  simp [wordCount]

/-- Messages that are parts of a reply, as they are found in a buffer, have no
more words than the buffer has room for beside their headers. -/
theorem readReply_bound {e : Endian} {buf : List Byte} {msgs : List NlMsg}
    (hsplit : nlMsgs e buf = some msgs) (hparts : ∀ msg ∈ msgs, NlMsg.IsReply e msg) :
    4 * wordCount e msgs + 24 * genericCount msgs + 16 * doneCount msgs ≤ buf.length ∧
      wordCount e msgs ≤ 16382 * genericCount msgs := by
  have hsum : 4 * wordCount e msgs + 24 * genericCount msgs + 16 * doneCount msgs ≤
        (msgs.map NlMsg.size).sum ∧ wordCount e msgs ≤ 16382 * genericCount msgs := by
    clear hsplit
    induction msgs with
    | nil => simp [wordCount, genericCount, doneCount]
    | cons msg msgs ih =>
        obtain ⟨ihsize, ihwords⟩ := ih fun m hm => hparts m (List.mem_cons_of_mem _ hm)
        obtain ⟨hleast, hwords⟩ := (hparts msg List.mem_cons_self).bound
        simp only [wordCount, genericCount, doneCount] at ihsize ihwords ⊢
        rw [List.flatMap_cons, List.length_append, List.countP_cons, List.countP_cons,
          List.map_cons, List.sum_cons]
        by_cases hdone : msg.type = nlmsgDone
        · simp only [NlMsg.least, NlMsg.dataWords, hdone, if_true, List.length_nil, decide_true,
            Bool.not_true, Bool.false_eq_true, if_false] at hleast ⊢
          omega
        · simp only [NlMsg.least, hdone, decide_false, Bool.not_false, Bool.false_eq_true,
            if_true, if_false] at hleast ⊢
          omega
  have hsize := nlMsgs_size hsplit
  omega

end MdioTools.Client
