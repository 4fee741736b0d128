import Mathlib.Data.List.TakeWhile
import MdioTools.Kernel.Deadline

/-!
# The bus of a request

{lit}`mdio_nl_cmd_xfer` looks up the bus with the memory at the start of the
BUS_ID payload as a C string.  The policy bounds the length of the payload, and
does not ask for a NUL in it.

Main results:

- Theorem {lit}`looksUp_iff`: the name that is looked up.
- Theorem {lit}`mdioNlCmdXfer_bus_iff`: when that name is the one in the
  payload, and when it is so whatever follows the payload.
-/

namespace MdioTools.Kernel

open Library

/-! ## C strings and what follows them -/

/-- With a NUL in it, a block of memory is a C string by itself. -/
theorem cString_append_of_mem {mem : List Byte} (h : 0 ∈ mem) (after : List Byte) :
    cString (mem ++ after) = cString mem := by
  unfold cString
  rw [List.takeWhile_append, if_neg]
  intro hlen
  have htake : mem.takeWhile (· ≠ 0) = mem := (List.takeWhile_prefix _).eq_of_length hlen
  rw [← htake] at h
  exact absurd (List.mem_takeWhile_imp h) (by simp)

/-- Without one, the string goes on behind it. -/
theorem cString_append_of_not_mem {mem : List Byte} (h : 0 ∉ mem) (after : List Byte) :
    cString (mem ++ after) = mem ++ cString after := by
  refine List.takeWhile_append_of_pos fun c hc => ?_
  simp only [decide_eq_true_eq]
  exact ne_of_mem_of_not_mem hc h

theorem cString_eq_self {mem : List Byte} (h : 0 ∉ mem) : cString mem = mem := by
  have happend := cString_append_of_not_mem h []
  rwa [List.append_nil, show cString [] = [] from rfl, List.append_nil] at happend

theorem cString_eq_nil_iff {mem : List Byte} (h : mem ≠ []) :
    cString mem = [] ↔ mem.head? = some 0 := by
  cases mem with
  | nil => exact absurd rfl h
  | cons c mem =>
      unfold cString
      by_cases hc : c = 0
      · rw [List.takeWhile_cons_of_neg (by simpa using hc), hc]
        exact iff_of_true rfl rfl
      · rw [List.takeWhile_cons_of_pos (by simpa using hc)]
        simpa using hc

/-- What follows a block of memory is not read exactly when there is a NUL in the
block or right behind it. -/
theorem cString_append_eq_iff (mem : List Byte) {after : List Byte} (h : after ≠ []) :
    cString (mem ++ after) = cString mem ↔ 0 ∈ mem ∨ after.head? = some 0 := by
  by_cases hmem : 0 ∈ mem
  · simp only [cString_append_of_mem hmem, hmem, true_or]
  · rw [cString_append_of_not_mem hmem, cString_eq_self hmem, ← cString_eq_nil_iff h,
      or_iff_right hmem]
    exact List.append_right_eq_self

/-! ## The policy -/

/-- `MII_BUS_ID_SIZE`. -/
def miiBusIdSize : Nat := 61

/-- The `MDIO_NLA_BUS_ID` entry of `mdio_nl_policy`.  A `NLA_STRING` has at least
one byte, and at most `len` not counting a NUL at its end. -/
def mdioNlPolicyBusId (attr : NlAttr) : Prop :=
  1 ≤ attr.payload.length ∧
    (if attr.payload.getLast? = some 0 then attr.payload.length - 1 else attr.payload.length) ≤
      miiBusIdSize

/-- `mdio_nl_policy`, of the attributes that the handler reads.  It sees payloads
only. -/
structure MdioNlPolicy (e : Endian) (attrs : GenlAttrs) : Prop where
  busId : ∀ attr ∈ attrs.busId, mdioNlPolicyBusId attr
  timeout : ∀ attr ∈ attrs.timeout, mdioNlPolicyTimeout e attr
  prog : ∀ attr ∈ attrs.prog, mdioNlPolicyProg attr

/-- Requests with the same payloads, followed by bytes of their own. -/
structure SamePayloads (attrs attrs' : GenlAttrs) : Prop where
  busId : attrs'.busId.map (·.payload) = attrs.busId.map (·.payload)
  timeout : attrs'.timeout.map (·.payload) = attrs.timeout.map (·.payload)
  prog : attrs'.prog = attrs.prog
  data : attrs'.data = attrs.data
  error : attrs'.error = attrs.error

/-! ## The name that is looked up -/

/-- The attributes are such that the handler comes to the lookup. -/
structure Looks (attrs : GenlAttrs) (attr : NlAttr) : Prop where
  busId : attrs.busId = some attr
  prog : attrs.prog ≠ none
  data : attrs.data = false
  error : attrs.error = false

/-- The handler looks up the bus under this name and no other. -/
def LooksUp (env : ReplyEnv) (attrs : GenlAttrs) (name : List Byte) : Prop :=
  ∀ {β : Type} (findBus : List Byte → Option (MiiBus β)) (late : BitVec 32 → Nat → Bool) (b : β)
    (fuel : Nat), mdioNlCmdXfer env findBus late attrs b fuel =
      mdioNlCmdXfer env (fun _ => findBus name) late attrs b fuel

variable {env : ReplyEnv} {attrs : GenlAttrs} {attr : NlAttr} {β : Type}

/-- The handler looks up the C string of the attribute only. -/
theorem mdioNlCmdXfer_lookup (hlooks : Looks attrs attr)
    (findBus : List Byte → Option (MiiBus β)) (late : BitVec 32 → Nat → Bool) (b : β)
    (fuel : Nat) :
    mdioNlCmdXfer env findBus late attrs b fuel =
      mdioNlCmdXfer env (fun _ => findBus (cString (attr.payload ++ attr.after))) late attrs b
        fuel := by
  obtain ⟨prog, hprog⟩ := Option.ne_none_iff_exists'.mp hlooks.prog
  simp only [mdioNlCmdXfer, hlooks.busId, hprog]

/-- Without a bus the answer is `-ENODEV`. -/
theorem mdioNlCmdXfer_no_bus (hlooks : Looks attrs attr) (late : BitVec 32 → Nat → Bool) (b : β)
    (fuel : Nat) :
    mdioNlCmdXfer env (fun _ => none) late attrs b fuel =
      some ⟨-enodev, Xfer.init, b, none, none⟩ := by
  obtain ⟨prog, hprog⟩ := Option.ne_none_iff_exists'.mp hlooks.prog
  simp [mdioNlCmdXfer, hlooks.busId, hprog, hlooks.data, hlooks.error]

/-- With one it is not, however short the run. -/
theorem mdioNlCmdXfer_bus (hlooks : Looks attrs attr) (bus : MiiBus β)
    (late : BitVec 32 → Nat → Bool) (b : β) {out : XferOutcome β}
    (h : mdioNlCmdXfer env (fun _ => some bus) late attrs b 0 = some out) : out.err ≠ -enodev := by
  obtain ⟨prog, hprog⟩ := Option.ne_none_iff_exists'.mp hlooks.prog
  simp only [mdioNlCmdXfer, hlooks.busId, hprog, hlooks.data, hlooks.error, Bool.or_self,
    Bool.false_eq_true, if_false] at h
  split at h
  · cases h
    show (mdioNlOpen env Xfer.init).1 ≠ -enodev
    unfold mdioNlOpen
    simp only
    split_ifs <;> simp [enomem, emsgsize, enodev]
  · cases h

/-- The name that the handler looks up is the C string that starts at the
payload. -/
theorem looksUp_iff (hlooks : Looks attrs attr) (name : List Byte) :
    LooksUp env attrs name ↔ name = cString (attr.payload ++ attr.after) := by
  constructor
  · -- A lookup that fails under this name only tells it from all others.
    intro h
    by_contra hne
    let findBus := fun n => if n = name then none else some nullBus
    have hother : findBus (cString (attr.payload ++ attr.after)) = some nullBus :=
      if_neg (Ne.symm hne)
    have hlook := h findBus (fun _ _ => false) () 0
    rw [show findBus name = none from if_pos rfl, mdioNlCmdXfer_no_bus hlooks,
      mdioNlCmdXfer_lookup hlooks, hother] at hlook
    exact mdioNlCmdXfer_bus hlooks nullBus _ () hlook rfl
  · rintro rfl β findBus late b fuel
    exact mdioNlCmdXfer_lookup hlooks findBus late b fuel

theorem SamePayloads.looks {attrs' : GenlAttrs} (h : SamePayloads attrs attrs')
    (hlooks : Looks attrs attr) : ∃ after, Looks attrs' ⟨attr.payload, after⟩ := by
  have hbus := h.busId
  rw [hlooks.busId, Option.map_some, Option.map_eq_some_iff] at hbus
  obtain ⟨attr', hattr', hpayload⟩ := hbus
  refine ⟨attr'.after, ?_, h.prog ▸ hlooks.prog, h.data ▸ hlooks.data, h.error ▸ hlooks.error⟩
  rw [hattr', ← hpayload]

/-- A request with other bytes behind the BUS_ID payload. -/
def GenlAttrs.withAfter (attrs : GenlAttrs) (attr : NlAttr) (after : List Byte) : GenlAttrs :=
  { attrs with busId := some ⟨attr.payload, after⟩ }

/-- An accepted request is looked up under the name in its BUS_ID payload exactly
when there is a NUL in the payload or right behind it; and all accepted requests
with its payloads are looked up under one name exactly when there is one in the
payload. -/
theorem mdioNlCmdXfer_bus_iff (env : ReplyEnv) (attrs : GenlAttrs) (attr : NlAttr)
    (hlooks : Looks attrs attr) (hpol : MdioNlPolicy env.endian attrs) (hafter : attr.after ≠ []) :
    (LooksUp env attrs (cString attr.payload) ↔
      0 ∈ attr.payload ∨ attr.after.head? = some 0) ∧
    ((∀ attrs', MdioNlPolicy env.endian attrs' → SamePayloads attrs attrs' →
      ∃ name, LooksUp env attrs name ∧ LooksUp env attrs' name) ↔ 0 ∈ attr.payload) := by
  constructor
  · rw [looksUp_iff hlooks, eq_comm]
    exact cString_append_eq_iff attr.payload hafter
  constructor
  · intro h
    by_contra hnul
    -- Behind the payload stands a NUL if the name went on, and else it goes on.
    obtain ⟨other, hother⟩ : ∃ other : List Byte, cString other ≠ cString attr.after := by
      by_cases hend : cString attr.after = []
      · exact ⟨[1], by rw [hend]; decide⟩
      · exact ⟨[], fun heq => hend heq.symm⟩
    obtain ⟨name, hname, hname'⟩ := h (attrs.withAfter attr other)
      { hpol with busId := by rintro _ ⟨⟩; exact hpol.busId attr hlooks.busId }
      ⟨by rw [hlooks.busId]; rfl, rfl, rfl, rfl, rfl⟩
    rw [looksUp_iff hlooks, cString_append_of_not_mem hnul] at hname
    have hlooks' : Looks (attrs.withAfter attr other) ⟨attr.payload, other⟩ :=
      { hlooks with busId := rfl }
    rw [looksUp_iff hlooks', cString_append_of_not_mem hnul, hname] at hname'
    exact hother (List.append_cancel_left hname').symm
  · intro hnul attrs' hpol' hsame
    obtain ⟨after, hlooks'⟩ := hsame.looks hlooks
    refine ⟨cString attr.payload, (looksUp_iff hlooks _).mpr ?_, (looksUp_iff hlooks' _).mpr ?_⟩
    · rw [cString_append_of_mem hnul]
    · rw [cString_append_of_mem hnul]

/-- A request for a bus, with an empty program. -/
def busRequest (attr : NlAttr) : GenlAttrs :=
  ⟨some attr, none, some ⟨0, [], rfl⟩, false, false⟩

theorem looks_busRequest (attr : NlAttr) : Looks (busRequest attr) attr :=
  ⟨rfl, by simp [busRequest], rfl, rfl⟩

theorem mdioNlPolicy_busRequest {attr : NlAttr} (h : mdioNlPolicyBusId attr) (e : Endian) :
    MdioNlPolicy e (busRequest attr) where
  busId := by rintro _ ⟨⟩; exact h
  timeout := by rintro _ ⟨⟩
  prog := by rintro _ ⟨⟩; exact ⟨by decide, rfl⟩

/-- A name with its NUL, as the client puts it. -/
theorem mdioNlCmdXfer_bus_terminated :
    LooksUp (exampleEnv []) (busRequest ⟨[0x61, 0], [0, 0]⟩) [0x61] :=
  (mdioNlCmdXfer_bus_iff (exampleEnv []) _ ⟨[0x61, 0], [0, 0]⟩ (looks_busRequest _)
    (mdioNlPolicy_busRequest (by unfold mdioNlPolicyBusId; decide) _) (by decide)).1.mpr
    (Or.inl (by decide))

/-- Two accepted requests with the payload `a`, of which one is for the bus `a`
and the other for the bus `ab`. -/
theorem mdioNlCmdXfer_bus_unterminated :
    MdioNlPolicy .little (busRequest ⟨[0x61], [0, 0, 0]⟩) ∧
      MdioNlPolicy .little (busRequest ⟨[0x61], [0x62, 0, 0]⟩) ∧
      SamePayloads (busRequest ⟨[0x61], [0, 0, 0]⟩) (busRequest ⟨[0x61], [0x62, 0, 0]⟩) ∧
      LooksUp (exampleEnv []) (busRequest ⟨[0x61], [0, 0, 0]⟩) [0x61] ∧
      LooksUp (exampleEnv []) (busRequest ⟨[0x61], [0x62, 0, 0]⟩) [0x61, 0x62] ∧
      ¬LooksUp (exampleEnv []) (busRequest ⟨[0x61], [0x62, 0, 0]⟩) [0x61] := by
  have hpol : ∀ after, mdioNlPolicyBusId ⟨[0x61], after⟩ := fun after =>
    ⟨Nat.le_refl 1, Nat.le_of_ble_eq_true rfl⟩
  refine ⟨mdioNlPolicy_busRequest (hpol _) _, mdioNlPolicy_busRequest (hpol _) _,
    ⟨rfl, rfl, rfl, rfl, rfl⟩, ?_, ?_, ?_⟩
  · exact (looksUp_iff (looks_busRequest _) _).mpr (by decide)
  · exact (looksUp_iff (looks_busRequest _) _).mpr (by decide)
  · rw [looksUp_iff (looks_busRequest _)]
    decide

end MdioTools.Kernel
