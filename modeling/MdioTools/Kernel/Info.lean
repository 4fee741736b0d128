import MdioTools.Kernel.BusName
import MdioTools.Library.NlCursor

/-!
# The attributes of a request

A request reaches the handler as a message in memory and a table of the places
of its attributes, which generic netlink has checked against the policy of the
family.  The handler reads the payloads in place: the bus name as a C string, the
time limit as an integer, and the program as an array of instructions.

Main results:

- Definition {lit}`genlInfo`: the attributes of a message in memory.
- Theorem {lit}`PutMessage.infoAttr_some`: the table has the last attribute of a
  type that has been put.
- Definition {lit}`genlRcvMsg`: the policy, and the handler behind it.
- Theorem {lit}`mdioNlEval_unreserved`: the reserved bits of an instruction do not
  count.
-/

namespace MdioTools.Kernel

open Library

/-! ## Instructions in memory -/

/-- The instruction in eight bytes.  The compiler gives the first bit-field the
low end of the 64-bit integer on a little-endian host, and the high end on a
big-endian one. -/
def insnOfBytes (e : Endian) (mem : List Byte) : MdioNlInsn :=
  let word := e.get64 mem
  match e with
  | .little =>
      { op := word.extractLsb' 0 8
        reserved := word.extractLsb' 8 2
        arg0 := word.extractLsb' 10 18
        arg1 := word.extractLsb' 28 18
        arg2 := word.extractLsb' 46 18 }
  | .big =>
      { op := word.extractLsb' 56 8
        reserved := word.extractLsb' 54 2
        arg0 := word.extractLsb' 36 18
        arg1 := word.extractLsb' 18 18
        arg2 := word.extractLsb' 0 18 }

/-- The whole instructions in memory. -/
def insnsOfBytes (e : Endian) (mem : List Byte) : List MdioNlInsn :=
  (List.range (mem.length / sizeofInsn)).map fun i => insnOfBytes e (mem.drop (sizeofInsn * i))

/-- `xfer.prog_len` and `xfer.prog`. -/
def progOfBytes (e : Endian) (mem : List Byte) : ProgAttr where
  len := mem.length
  insns := insnsOfBytes e mem
  length_insns := by simp [insnsOfBytes]

/-! ## The table of attributes -/

/-- An entry of `info->attrs`: the last attribute of a type. -/
def infoAttr (e : Endian) (mem : List Byte) (type : BitVec 16) : Option NlAttr :=
  (lastPlace e mem type
    (attrPlaces e mem (nlmsgHdrlen + genlHdrlen) (e.get32 mem).toNat)).map fun p =>
      ⟨attrPayload e mem p, mem.drop (p + attrLen e mem p)⟩

/-- `info->attrs` for the message that starts a block of memory. -/
def genlInfo (e : Endian) (mem : List Byte) : GenlAttrs where
  busId := infoAttr e mem mdioNlaBusId
  timeout := infoAttr e mem mdioNlaTimeout
  prog := (infoAttr e mem mdioNlaProg).map fun attr => progOfBytes e attr.payload
  data := (infoAttr e mem mdioNlaData).isSome
  error := (infoAttr e mem mdioNlaError).isSome

/-! ## Attributes that have been put -/

section Put

variable {e : Endian} {hdr rest : List Byte} {attrs : List NlAttribute}

/-- The headers and the attributes of a message that is followed by `rest`. -/
structure PutMessage (e : Endian) (hdr : List Byte) (attrs : List NlAttribute) (rest : List Byte) :
    Prop where
  headers : hdr.length = nlmsgHdrlen + genlHdrlen
  length : (e.get32 (hdr ++ attrsBytes e attrs ++ rest)).toNat =
    nlmsgHdrlen + genlHdrlen + attrsSize attrs
  fits : ∀ a ∈ attrs, a.Fits

/-- The attributes begin behind the headers. -/
theorem PutMessage.drop_headers (h : PutMessage e hdr attrs rest) :
    (hdr ++ attrsBytes e attrs ++ rest).drop (nlmsgHdrlen + genlHdrlen) =
      attrsBytes e attrs ++ rest := by
  rw [← h.headers, List.append_assoc, List.drop_left]

theorem PutMessage.place (h : PutMessage e hdr attrs rest) (type : BitVec 16) :
    lastPlace e (hdr ++ attrsBytes e attrs ++ rest) type
        (attrPlaces e (hdr ++ attrsBytes e attrs ++ rest) (nlmsgHdrlen + genlHdrlen)
          (e.get32 (hdr ++ attrsBytes e attrs ++ rest)).toNat) =
      lastAttr type attrs (nlmsgHdrlen + genlHdrlen) := by
  rw [h.length]
  exact lastPlace_attrs h.fits ⟨rest, h.drop_headers.symm⟩ type

theorem PutMessage.infoAttr_none (h : PutMessage e hdr attrs rest) {type : BitVec 16}
    (hnone : ∀ a ∈ attrs, a.type ≠ type) :
    infoAttr e (hdr ++ attrsBytes e attrs ++ rest) type = none := by
  rw [infoAttr, h.place, (lastAttr_eq_none_iff _ _ _).mpr hnone]
  rfl

/-- The table has the payload of the last attribute of a type.  Behind it are its
padding, the attributes that follow, and what follows the message. -/
theorem PutMessage.infoAttr_some (front : List NlAttribute) (a : NlAttribute)
    {back : List NlAttribute} (h : PutMessage e hdr (front ++ a :: back) rest)
    (hback : ∀ b ∈ back, b.type ≠ a.type) :
    infoAttr e (hdr ++ attrsBytes e (front ++ a :: back) ++ rest) a.type =
      some ⟨a.payload, List.replicate (align4 a.payload.length - a.payload.length) 0 ++
        attrsBytes e back ++ rest⟩ := by
  have hmem : (hdr ++ attrsBytes e (front ++ a :: back) ++ rest).drop
      (nlmsgHdrlen + genlHdrlen + attrsSize front) = a.bytes e ++ (attrsBytes e back ++ rest) := by
    rw [← List.drop_drop, h.drop_headers, attrsBytes_append, attrsBytes_cons, List.append_assoc,
      List.append_assoc, ← attrsBytes_length e front, List.drop_left]
  have hat : a.bytes e <+: (hdr ++ attrsBytes e (front ++ a :: back) ++ rest).drop
      (nlmsgHdrlen + genlHdrlen + attrsSize front) := ⟨_, hmem.symm⟩
  obtain ⟨hlen, -, hpayload, -⟩ := attr_at (h.fits a (by simp)) hat
  rw [infoAttr, h.place, lastAttr_split front rfl hback, Option.map_some, hpayload, hlen]
  congr 2
  -- the header and the payload are in front of the padding
  have hfront : (e.put16 (BitVec.ofNat 16 (4 + a.payload.length)) ++ e.put16 a.type ++
      a.payload).length = 4 + a.payload.length := by
    simp
    omega
  rw [← List.drop_drop, hmem, NlAttribute.bytes, List.append_assoc, List.drop_left' hfront,
    List.append_assoc]

end Put

/-! ## The policy in front of the handler -/

instance (attr : NlAttr) : Decidable (mdioNlPolicyBusId attr) :=
  inferInstanceAs (Decidable (_ ∧ _))

instance (e : Endian) (attr : NlAttr) : Decidable (mdioNlPolicyTimeout e attr) :=
  inferInstanceAs (Decidable (_ ∧ _))

instance (attr : ProgAttr) : Decidable (mdioNlValidateProg attr = .ok ()) :=
  match h : mdioNlValidateProg attr with
  | .ok () => isTrue rfl
  | .error _ => isFalse fun hok => by cases hok

instance (attr : ProgAttr) : Decidable (mdioNlPolicyProg attr) :=
  inferInstanceAs (Decidable (_ ∧ _))

theorem mdioNlPolicy_iff (e : Endian) (attrs : GenlAttrs) :
    MdioNlPolicy e attrs ↔ (∀ attr ∈ attrs.busId, mdioNlPolicyBusId attr) ∧
      (∀ attr ∈ attrs.timeout, mdioNlPolicyTimeout e attr) ∧
      ∀ attr ∈ attrs.prog, mdioNlPolicyProg attr :=
  ⟨fun h => ⟨h.busId, h.timeout, h.prog⟩, fun h => ⟨h.1, h.2.1, h.2.2⟩⟩

instance (e : Endian) (attrs : GenlAttrs) : Decidable (MdioNlPolicy e attrs) :=
  decidable_of_iff _ (mdioNlPolicy_iff e attrs).symm

/-- What generic netlink does with a request for the family: a message against the
policy is answered with `refusal`, the others are handed to `mdio_nl_cmd_xfer`. -/
def genlRcvMsg {β : Type} (env : ReplyEnv) (refusal : Int)
    (findBus : List Byte → Option (MiiBus β)) (late : BitVec 32 → Nat → Bool) (mem : List Byte)
    (b : β) (fuel : Nat) : Option (XferOutcome β) :=
  if MdioNlPolicy env.endian (genlInfo env.endian mem) then
    mdioNlCmdXfer env findBus late (genlInfo env.endian mem) b fuel
  else some ⟨refusal, Xfer.init, b, none, none⟩

/-! ## Reserved bits -/

/-- The instruction with its reserved bits cleared, as `INSN` builds it. -/
def MdioNlInsn.unreserved (i : MdioNlInsn) : MdioNlInsn :=
  { i with reserved := 0 }

theorem validateInsns_unreserved (prog : List MdioNlInsn) :
    validateInsns (prog.map MdioNlInsn.unreserved) = validateInsns prog := by
  induction prog with
  | nil => rfl
  | cons i rest ih => rw [List.map_cons, validateInsns, validateInsns, ih]; rfl

/-- The interpreter does not look at them. -/
theorem mdioNlEval_unreserved {π β : Type} (prog : List MdioNlInsn) (bus : MiiBus β)
    (host : Host π) :
    mdioNlEval (prog.map MdioNlInsn.unreserved) bus host = mdioNlEval prog bus host := by
  have hstep : ∀ s, evalStep (prog.map MdioNlInsn.unreserved) bus host s =
      evalStep prog bus host s := by
    intro s
    unfold evalStep
    by_cases hpc : s.pc.toNat < prog.length
    · rw [dif_pos hpc, dif_pos (by simpa using hpc), List.getElem_map]
      rfl
    · rw [dif_neg hpc, dif_neg (by simpa using hpc)]
  rw [mdioNlEval, mdioNlEval, funext hstep]

end MdioTools.Kernel
