import MdioTools.Client.Request
import MdioTools.Kernel.Info

/-!
# Round trip of a request

The client writes a request into its buffer, and the kernel module finds the bus,
the program and the time limit in the memory of the message it has received,
wherever that ends.  The client writes bytes and the handler reads C strings,
integers and instructions, so what comes back depends on terminators, on padding
and on the byte order.

Main results:

- Theorem {lit}`insnsOfBytes_flatMap`: the instructions of a program are read
  back.
- Theorem {lit}`genlInfo_request`: the attributes of a request.
- Theorem {lit}`requestBytes_carries`: what the handler is asked for, and when the
  policy lets it through.
-/

namespace MdioTools.System

open Library Kernel Client

/-! ## Instructions -/

/-- An instruction is read back but for its reserved bits. -/
theorem insnOfBytes_insnBytes (e : Endian) (i : MdioNlInsn) (rest : List Byte) :
    insnOfBytes e (insnBytes e i ++ rest) = i.unreserved := by
  cases e with
  | little =>
      have hput : insnBytes .little i =
          Endian.little.put64 (i.arg2 ++ i.arg1 ++ i.arg0 ++ 0#2 ++ i.op) := rfl
      rw [insnOfBytes, hput, Endian.get64_put64]
      simp only [MdioNlInsn.unreserved, MdioNlInsn.mk.injEq]
      refine ⟨?_, ?_, ?_, ?_, ?_⟩ <;>
        · refine BitVec.eq_of_getLsbD_eq fun k hk => ?_
          simp only [BitVec.getLsbD_extractLsb', BitVec.getLsbD_append, hk, decide_true, Bool.true_and]
          split_ifs <;> first | omega | exact congrArg _ (by omega)
  | big =>
      have hput : insnBytes .big i =
          Endian.big.put64 (i.op ++ 0#2 ++ i.arg0 ++ i.arg1 ++ i.arg2) := rfl
      rw [insnOfBytes, hput, Endian.get64_put64]
      simp only [MdioNlInsn.unreserved, MdioNlInsn.mk.injEq]
      refine ⟨?_, ?_, ?_, ?_, ?_⟩ <;>
        · refine BitVec.eq_of_getLsbD_eq fun k hk => ?_
          simp only [BitVec.getLsbD_extractLsb', BitVec.getLsbD_append, hk, decide_true, Bool.true_and]
          split_ifs <;> first | omega | exact congrArg _ (by omega)

/-- The instructions in front of the `n`-th fill `n` times eight bytes. -/
theorem drop_flatMap_insnBytes (e : Endian) (prog : MdioProg) {n : Nat} (h : n ≤ prog.length) :
    (prog.flatMap (insnBytes e)).drop (sizeofInsn * n) = (prog.drop n).flatMap (insnBytes e) := by
  have hfront : ((prog.take n).flatMap (insnBytes e)).length = sizeofInsn * n := by
    rw [flatMap_insnBytes_length, List.length_take_of_le h]
  conv_lhs => rw [← List.take_append_drop n prog, List.flatMap_append]
  exact List.drop_left' hfront

/-- The instructions of a program are read back. -/
theorem insnsOfBytes_flatMap (e : Endian) (prog : MdioProg) :
    insnsOfBytes e (prog.flatMap (insnBytes e)) = prog.map MdioNlInsn.unreserved := by
  have hcount : (prog.flatMap (insnBytes e)).length / sizeofInsn = prog.length := by
    rw [flatMap_insnBytes_length]
    exact Nat.mul_div_cancel_left _ (by decide)
  rw [insnsOfBytes, hcount]
  refine List.ext_getElem (by simp) fun n hn hn' => ?_
  have hlt : n < prog.length := by simpa using hn'
  rw [List.getElem_map, List.getElem_map, List.getElem_range,
    drop_flatMap_insnBytes e prog (Nat.le_of_lt hlt), List.drop_eq_getElem_cons hlt,
    List.flatMap_cons, insnOfBytes_insnBytes]

/-! ## Attributes -/

variable {e : Endian} {family : BitVec 16} {seq : BitVec 32} {bus : List Byte} {prog : MdioProg}
  {timeout : BitVec 16} {rest : List Byte}

/-- The three attributes of a request. -/
def busIdAttr (bus : List Byte) : NlAttribute := ⟨mdioNlaBusId, bus ++ [0]⟩
def insnsAttr (e : Endian) (prog : MdioProg) : NlAttribute :=
  ⟨mdioNlaProg, prog.flatMap (insnBytes e)⟩
def timeoutAttr (e : Endian) (timeout : BitVec 16) : NlAttribute :=
  ⟨mdioNlaTimeout, e.put16 timeout⟩

/-- The attributes in the order in which the client puts them. -/
def requestAttrs (e : Endian) (bus : List Byte) (prog : MdioProg) (timeout : BitVec 16) :
    List NlAttribute :=
  [busIdAttr bus, insnsAttr e prog, timeoutAttr e timeout]

/-- The two headers of a request. -/
def requestHdr (e : Endian) (family : BitVec 16) (seq : BitVec 32) (size : Nat) : List Byte :=
  nlHeader e (BitVec.ofNat 32 (nlmsgHdrlen + genlHdrlen + size)) family requestFlags seq 0 ++
    [mdioGenlXfer, mdioGenlVersion, 0, 0]

/-- A request is its headers and its attributes. -/
theorem requestBytes_eq (e : Endian) (family : BitVec 16) (seq : BitVec 32) (bus : List Byte)
    (prog : MdioProg) (timeout : BitVec 16) :
    requestBytes e family seq bus prog timeout =
      requestHdr e family seq (attrsSize (requestAttrs e bus prog timeout)) ++
        attrsBytes e (requestAttrs e bus prog timeout) := by
  have hattrs : mnlAttrPutStrz e mdioNlaBusId bus ++
      mnlAttrPut e mdioNlaProg (prog.flatMap (insnBytes e)) ++
      mnlAttrPutU16 e mdioNlaTimeout timeout = attrsBytes e (requestAttrs e bus prog timeout) := by
    rw [requestAttrs, attrsBytes_cons, attrsBytes_cons, attrsBytes_cons, List.append_assoc]
    exact congrArg _ (congrArg _ (List.append_nil _).symm)
  simp only [requestBytes, hattrs, attrsBytes_length]
  rfl

theorem requestBytes_size (e : Endian) (family : BitVec 16) (seq : BitVec 32) (bus : List Byte)
    (prog : MdioProg) (timeout : BitVec 16) :
    (requestBytes e family seq bus prog timeout).length =
      nlmsgHdrlen + genlHdrlen + attrsSize (requestAttrs e bus prog timeout) := by
  rw [requestBytes_eq, List.length_append, attrsBytes_length]
  simp [requestHdr, nlmsgHdrlen, genlHdrlen]

/-- The attributes of a request that fits the buffer have room for their
lengths. -/
theorem requestAttrs_fits
    (hfits : (requestBytes e family seq bus prog timeout).length ≤ bufLen) :
    ∀ a ∈ requestAttrs e bus prog timeout, a.Fits := by
  rw [requestBytes_length] at hfits
  have halign := le_align4 (bus.length + 1)
  unfold bufLen at hfits
  simp only [requestAttrs, List.forall_mem_cons, List.not_mem_nil, false_implies, implies_true,
    and_true]
  have htypes : mdioNlaBusId &&& nlaTypeMask = mdioNlaBusId ∧
      mdioNlaProg &&& nlaTypeMask = mdioNlaProg ∧
      mdioNlaTimeout &&& nlaTypeMask = mdioNlaTimeout := by decide
  refine ⟨⟨?_, htypes.1⟩, ⟨?_, htypes.2.1⟩, ⟨?_, htypes.2.2⟩⟩
  · simp only [busIdAttr, List.length_append, List.length_singleton]
    omega
  · simp only [insnsAttr, flatMap_insnBytes_length, sizeofInsn]
    omega
  · simp [timeoutAttr]

/-- A request in memory is a message into which its attributes have been put. -/
theorem requestBytes_put (rest : List Byte)
    (hfits : (requestBytes e family seq bus prog timeout).length ≤ bufLen) :
    PutMessage e (requestHdr e family seq (attrsSize (requestAttrs e bus prog timeout)))
      (requestAttrs e bus prog timeout) rest where
  headers := by simp [requestHdr, nlmsgHdrlen, genlHdrlen]
  length := by
    have hsize := requestBytes_size e family seq bus prog timeout
    rw [hsize, bufLen] at hfits
    rw [requestHdr, List.append_assoc, List.append_assoc, get32_nlHeader, BitVec.toNat_ofNat,
      Nat.mod_eq_of_lt (by omega)]
  fits := requestAttrs_fits hfits

/-- What the handler finds in the memory of a request. -/
theorem genlInfo_request (rest : List Byte)
    (hfits : (requestBytes e family seq bus prog timeout).length ≤ bufLen) :
    genlInfo e (requestBytes e family seq bus prog timeout ++ rest) =
      { busId := some ⟨bus ++ [0],
          List.replicate (align4 (bus.length + 1) - (bus.length + 1)) 0 ++
            attrsBytes e [insnsAttr e prog, timeoutAttr e timeout] ++ rest⟩
        timeout := some ⟨e.put16 timeout, 0 :: 0 :: rest⟩
        prog := some (progOfBytes e (prog.flatMap (insnBytes e)))
        data := false
        error := false } := by
  have hput := requestBytes_put rest hfits
  have hbus := hput.infoAttr_some [] (busIdAttr bus)
    (by simp [insnsAttr, timeoutAttr, busIdAttr, mdioNlaProg, mdioNlaTimeout, mdioNlaBusId])
  have hprog := hput.infoAttr_some [busIdAttr bus] (insnsAttr e prog)
    (by simp [insnsAttr, timeoutAttr, mdioNlaProg, mdioNlaTimeout])
  have htimeout := hput.infoAttr_some [busIdAttr bus, insnsAttr e prog] (timeoutAttr e timeout)
    (by simp)
  have hnone : ∀ type, type ≠ mdioNlaBusId → type ≠ mdioNlaProg → type ≠ mdioNlaTimeout →
      infoAttr e (requestBytes e family seq bus prog timeout ++ rest) type = none := by
    intro type hb hp ht
    rw [requestBytes_eq]
    refine hput.infoAttr_none ?_
    simp only [requestAttrs, List.forall_mem_cons, List.not_mem_nil, false_implies, implies_true,
      and_true]
    exact ⟨Ne.symm hb, Ne.symm hp, Ne.symm ht⟩
  have hbus' : infoAttr e (requestBytes e family seq bus prog timeout ++ rest) mdioNlaBusId =
      some ⟨bus ++ [0], List.replicate (align4 (bus.length + 1) - (bus.length + 1)) 0 ++
        attrsBytes e [insnsAttr e prog, timeoutAttr e timeout] ++ rest⟩ := by
    rw [requestBytes_eq]
    rwa [show (busIdAttr bus).payload.length = bus.length + 1 from List.length_append] at hbus
  have hprog' : (infoAttr e (requestBytes e family seq bus prog timeout ++ rest) mdioNlaProg).map
      (fun attr => progOfBytes e attr.payload) =
      some (progOfBytes e (prog.flatMap (insnBytes e))) := by
    rw [requestBytes_eq]
    exact congrArg (Option.map fun attr => progOfBytes e attr.payload) hprog
  have htimeout' : infoAttr e (requestBytes e family seq bus prog timeout ++ rest) mdioNlaTimeout =
      some ⟨e.put16 timeout, 0 :: 0 :: rest⟩ := by
    have hpad : align4 (timeoutAttr e timeout).payload.length -
        (timeoutAttr e timeout).payload.length = 2 := by
      rw [timeoutAttr, Endian.put16_length]
      rfl
    rw [requestBytes_eq]
    rwa [hpad] at htimeout
  rw [genlInfo, hbus', hprog', htimeout', hnone mdioNlaData (by decide) (by decide) (by decide),
    hnone mdioNlaError (by decide) (by decide) (by decide)]
  rfl

/-! ## What is carried -/

/-- The time limit as the handler reads it: with the two bytes of padding behind
it. -/
def limitRead (e : Endian) (timeout : BitVec 16) : BitVec 32 :=
  match e with
  | .little => timeout.setWidth 32
  | .big => timeout ++ 0#16

theorem timeoutMs_request {env : ReplyEnv} {attrs : GenlAttrs}
    (h : attrs.timeout = some ⟨env.endian.put16 timeout, 0 :: 0 :: rest⟩) :
    timeoutMs env attrs = limitRead env.endian timeout := by
  simp only [timeoutMs, h, limitRead]
  generalize env.endian = e
  have hlow : (e.put16 timeout ++ 0 :: 0 :: rest).drop 2 = 0 :: 0 :: rest :=
    List.drop_left' (e.put16_length timeout)
  have hzero : e.get16 (0 :: 0 :: rest) = 0#16 :=
    (e.get16_eq_zero_iff 0 0 rest).mpr ⟨rfl, rfl⟩
  cases e with
  | little =>
      rw [Endian.get32, hlow, Endian.get16_put16, hzero, BitVec.setWidth_eq_append (by decide)]
      rfl
  | big => rw [Endian.get32, hlow, Endian.get16_put16, hzero]

/-- The request as the kernel module gets it: one message of the family, with the
bus, the program and the time limit of the caller, which the policy lets through
under the conditions of its table. -/
structure Carried (env : ReplyEnv) (bus : List Byte) (prog : MdioProg) (timeout : BitVec 16)
    (msg rest : List Byte) : Prop where
  message : nlMsgs env.endian msg = some [⟨env.family, msg.drop nlmsgHdrlen⟩]
  lookup : ∃ attr, Looks (genlInfo env.endian (msg ++ rest)) attr ∧
    cString (attr.payload ++ attr.after) = bus
  insns : ∃ attr, (genlInfo env.endian (msg ++ rest)).prog = some attr ∧
    attr.insns = prog.map MdioNlInsn.unreserved
  limit : timeoutMs env (genlInfo env.endian (msg ++ rest)) = limitRead env.endian timeout
  policy : MdioNlPolicy env.endian (genlInfo env.endian (msg ++ rest)) ↔
    bus.length ≤ miiBusIdSize ∧ timeout.toNat ≤ 10 * 1000 ∧
      ∀ i ∈ prog, mdioNlValidateInsn i = .ok ()

theorem get16_put16_nil (e : Endian) (v : BitVec 16) : e.get16 (e.put16 v) = v := by
  simpa using e.get16_put16 v []

/-- The BUS_ID attribute is within the policy if the name is. -/
theorem mdioNlPolicyBusId_strz (bus after : List Byte) :
    mdioNlPolicyBusId ⟨bus ++ [0], after⟩ ↔ bus.length ≤ miiBusIdSize := by
  simp [mdioNlPolicyBusId]

/-- So is the program if its instructions are valid, and there are not too many. -/
theorem mdioNlPolicyProg_flatMap (e : Endian) {prog : MdioProg} (h : prog.length ≤ 512) :
    mdioNlPolicyProg (progOfBytes e (prog.flatMap (insnBytes e))) ↔
      ∀ i ∈ prog, mdioNlValidateInsn i = .ok () := by
  have haligned : ¬(progOfBytes e (prog.flatMap (insnBytes e))).len % sizeofInsn ≠ 0 := by
    simp only [progOfBytes, flatMap_insnBytes_length, Nat.mul_mod_right, ne_eq, not_true_eq_false,
      not_false_eq_true]
  have hinsns : (progOfBytes e (prog.flatMap (insnBytes e))).insns =
      prog.map MdioNlInsn.unreserved := insnsOfBytes_flatMap e prog
  have hlen : (progOfBytes e (prog.flatMap (insnBytes e))).len ≤ 0x1000 := by
    simp only [progOfBytes, flatMap_insnBytes_length, sizeofInsn]
    omega
  rw [mdioNlPolicyProg, and_iff_right hlen, mdioNlValidateProg, if_neg haligned, hinsns,
    validateInsns_unreserved, validateInsns_ok_iff]

/-- A request that fits the buffer carries what the caller has asked for, whatever
is in the memory behind it. -/
theorem requestBytes_carries (env : ReplyEnv) (seq : BitVec 32) (bus : List Byte)
    (prog : MdioProg) (timeout : BitVec 16) (rest : List Byte) (hbus : 0 ∉ bus)
    (hfits : (requestBytes env.endian env.family seq bus prog timeout).length ≤ bufLen) :
    Carried env bus prog timeout (requestBytes env.endian env.family seq bus prog timeout) rest := by
  have hinfo := genlInfo_request rest hfits
  constructor
  case message =>
    have hsize := requestBytes_size env.endian env.family seq bus prog timeout
    have hmod := attrsSize_mod (requestAttrs env.endian bus prog timeout)
    rw [hsize, bufLen, nlmsgHdrlen, genlHdrlen] at hfits
    rw [requestBytes_eq, requestHdr, List.append_assoc]
    have hlen : (BitVec.ofNat 32 (nlmsgHdrlen + genlHdrlen +
        attrsSize (requestAttrs env.endian bus prog timeout))).toNat =
        16 + ([mdioGenlXfer, mdioGenlVersion, 0, 0] ++
          attrsBytes env.endian (requestAttrs env.endian bus prog timeout)).length := by
      simp [nlmsgHdrlen, genlHdrlen]
      omega
    have hread := nlMsgs_header env.endian env.family requestFlags seq 0 [] hlen (by simp; omega)
    rw [List.append_nil, nlMsgs_nil] at hread
    rw [hread, Option.map_some, nlmsgHdrlen, List.drop_left' (nlHeader_length ..)]
  case lookup =>
    refine ⟨_, ⟨by rw [hinfo], by simp [hinfo], by rw [hinfo], by rw [hinfo]⟩, ?_⟩
    rw [cString_append_of_mem (by simp), cString_append_of_not_mem hbus]
    exact List.append_nil bus
  case insns =>
    exact ⟨_, by rw [hinfo], insnsOfBytes_flatMap env.endian prog⟩
  case limit =>
    exact timeoutMs_request (by rw [hinfo])
  case policy =>
    have hlen : prog.length ≤ 512 := by
      rw [requestBytes_length, bufLen] at hfits
      omega
    simp only [mdioNlPolicy_iff, hinfo, Option.mem_some_iff, forall_eq']
    rw [mdioNlPolicyBusId_strz, mdioNlPolicyProg_flatMap env.endian hlen, mdioNlPolicyTimeout,
      get16_put16_nil, Endian.put16_length]
    simp

end MdioTools.System
