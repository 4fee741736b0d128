import Mathlib.Data.Fintype.Basic
import MdioTools.Client.Phy
import MdioTools.Device.RegAccess
import MdioTools.System.Party

/-!
# Atomicity of programs

Any number of requests and single accesses share a bus, in any order of their
steps.  A request makes its transactions while it holds {lit}`mdio_lock`, gives
the lock back on every way out of the interpreter loop, and the parties end as
if they had run one after another.  So a masked write, which reads and writes
back a register in several instructions, never loses the update of another.

Main results:

- Definition {lit}`Serial`: parties that run one after another.
- Theorem {lit}`Serial.masked`: masked writes of disjoint fields all arrive.
- Theorem {lit}`programs_atomic`: atomicity over any interleaving.
-/

namespace MdioTools.System

open Client Device Kernel Library

variable {ι β : Type}

/-! ## Serial runs -/

/-- The parties of a list run one after another, each with its result. -/
inductive Serial (name : List Byte) (bus : MiiBus β) (parties : ι → Party)
    (result : ι → PartyResult) : List ι → β → β → Prop
  | nil (b : β) : Serial name bus parties result [] b b
  | cons {i : ι} {rest : List ι} {b mid b' : β}
      (hrun : (parties i).Runs name bus b mid (result i))
      (hrest : Serial name bus parties result rest mid b') :
      Serial name bus parties result (i :: rest) b b'

variable {name : List Byte} {bus : MiiBus β} {parties : ι → Party} {result : ι → PartyResult}

/-- A serial run of the code is one of the handler. -/
theorem Serial.of_serialTo {locals : ι → PartyState} {order : List ι} {b b' : β}
    (h : SerialTo (partyCode name bus) (fun i => (parties i).start) locals order b b')
    (hres : ∀ i, (locals i).result = some (result i)) :
    Serial name bus parties result order b b' := by
  induction order generalizing b with
  | nil =>
      have hb : b' = b := h
      subst hb
      exact .nil b'
  | cons i rest ih =>
      obtain ⟨mid, hreach, hrest⟩ := h
      exact .cons (Party.runs_of_reaches (hres i) hreach) (ih hrest)

/-! ## Masked writes -/

/-- The status of a party: of the run of its program, if there was one, or of
its access. -/
def PartyResult.status : PartyResult → Option Int
  | .xfer out => out.status
  | .access ret => some ret

/-- The party asks for a masked write through a driver. -/
def Party.MaskedWrite (drv : MdioDriver) (reg val mask : BitVec 32) (p : Party) : Prop :=
  ∃ r attr, p = .xfer r ∧ r.attrs.prog = some attr ∧
    attr.insns = mdioCommonRawProg drv reg (some (val, mask))

section Masked

variable {κ : Type} [DecidableEq κ] {dev : Device β} {drv : MdioDriver}
  (acc : RegAccess dev drv κ) {reg : BitVec 32}

/-- A masked write that ends with status 0 has stored its new value. -/
theorem Party.MaskedWrite.runs {acc : RegAccess dev drv κ} (hfaithful : acc.Faithful)
    (hvalid : acc.valid reg) {p : Party} {val mask : BitVec 32}
    (hp : p.MaskedWrite drv reg val mask) {res : PartyResult} (hstatus : res.status = some 0)
    {b b' : β} (hrun : p.Runs name dev.bus b b' res) {ω : κ → BitVec 16} (hrep : acc.rep b ω) :
    acc.rep b' (RegAccess.rawRegs ω (acc.addr reg) (some (val, mask))) := by
  obtain ⟨r, attr, rfl, hattr, hinsns⟩ := hp
  cases res with
  | access ret => exact hrun.elim
  | xfer out =>
      obtain ⟨fuel, hfuel⟩ := hrun
      have hstatus' : out.status = some 0 := hstatus
      rw [mdioNlCmdXfer_enter] at hfuel
      cases henter : r.enter name with
      | error out' =>
          rw [henter] at hfuel
          simp only [XferOutcome.onBus, Option.some.injEq, XferOutcome.mk.injEq] at hfuel
          rw [← hfuel.2.2.2.1, XferRequest.enter_error_status henter] at hstatus'
          cases hstatus'
      | ok entered =>
          obtain ⟨prog, x⟩ := entered
          rw [henter] at hfuel
          simp only at hfuel
          split at hfuel
          · rename_i why ret h b'' hhalts
            simp only [xferFinish, XferOutcome.onBus, Option.some.injEq,
              XferOutcome.mk.injEq] at hfuel
            obtain ⟨-, -, rfl, hret, -⟩ := hfuel
            rw [hstatus', Option.some.injEq] at hret
            subst hret
            obtain ⟨w, hquiet⟩ := mdioNlEval_quiet hhalts le_rfl []
            obtain ⟨b₁, hraw, hrep'⟩ :=
              acc.raw_halts reg hfaithful hvalid hrep (some (val, mask))
            rw [XferRequest.enter_prog henter hattr, hinsns] at hquiet
            have hsame := hquiet.unique hraw
            simp only [EvalResult.returned.injEq] at hsame
            rw [hsame.2.2.2]
            exact hrep'
          · cases hfuel

/-- What the masked writes of a register do, and the other parties do not: each
party has a field of the register, which it sets if it is a masked write that
ended with status 0 and which is empty if it leaves the register alone.  No two
fields overlap. -/
structure FieldWrites (name : List Byte) (parties : ι → Party) (result : ι → PartyResult)
    (reg : BitVec 32) (field data : ι → BitVec 16) : Prop where
  disjoint : ∀ i j, i ≠ j → field i &&& field j = 0
  party : ∀ i,
    (∃ val mask : BitVec 32, (parties i).MaskedWrite drv reg val mask ∧
      (result i).status = some 0 ∧ field i = ~~~mask.setWidth 16 ∧ data i = val.setWidth 16 ∧
      data i &&& ~~~field i = 0) ∨
    (field i = 0 ∧ data i = 0 ∧ ∀ b b' ω, acc.rep b ω →
      (parties i).Runs name dev.bus b b' (result i) →
      ∃ ω', acc.rep b' ω' ∧ ω' (acc.addr reg) = ω (acc.addr reg))

/-- A masked value has the new bits in the field and the old bits around it. -/
theorem maskedValue_fields (old : BitVec 16) {val mask : BitVec 32}
    (hval : val.setWidth 16 &&& mask.setWidth 16 = 0) :
    RegAccess.maskedValue old val mask &&& ~~~mask.setWidth 16 = val.setWidth 16 ∧
      ∀ k, ~~~mask.setWidth 16 &&& k = 0 → RegAccess.maskedValue old val mask &&& k = old &&& k := by
  unfold RegAccess.maskedValue
  generalize (val.setWidth 16 : BitVec 16) = v at hval ⊢
  generalize (mask.setWidth 16 : BitVec 16) = m at hval ⊢
  constructor
  · ext i hi
    have hbit := congrArg (fun x : BitVec 16 => x[i]) hval
    simp only [BitVec.getElem_and] at hbit
    simp only [BitVec.getElem_and, BitVec.getElem_or, BitVec.getElem_not]
    cases hv : v[i] <;> cases hm : m[i] <;> simp_all
  · intro k hk
    ext i hi
    have hbit := congrArg (fun x : BitVec 16 => x[i]) hval
    have hout := congrArg (fun x : BitVec 16 => x[i]) hk
    simp only [BitVec.getElem_and] at hbit
    simp only [BitVec.getElem_and, BitVec.getElem_not] at hout
    simp only [BitVec.getElem_and, BitVec.getElem_or]
    cases hv : v[i] <;> cases hm : m[i] <;> simp_all

/-- One party sets its field and leaves the bits around it. -/
theorem FieldWrites.run {acc : RegAccess dev drv κ} (hfaithful : acc.Faithful)
    (hvalid : acc.valid reg) {field data : ι → BitVec 16}
    (h : FieldWrites acc name parties result reg field data) {i : ι} {b b' : β}
    (hrun : (parties i).Runs name dev.bus b b' (result i)) {ω : κ → BitVec 16}
    (hrep : acc.rep b ω) :
    ∃ ω', acc.rep b' ω' ∧ ω' (acc.addr reg) &&& field i = data i ∧
      ∀ k, field i &&& k = 0 → ω' (acc.addr reg) &&& k = ω (acc.addr reg) &&& k := by
  rcases h.party i with ⟨val, mask, hp, hstatus, hfield, hdata, hinside⟩ | ⟨hfield, hdata, hspares⟩
  · refine ⟨_, hp.runs hfaithful hvalid hstatus hrun hrep, ?_⟩
    have hval : val.setWidth 16 &&& mask.setWidth 16 = (0 : BitVec 16) := by
      rw [hfield, hdata, BitVec.not_not] at hinside
      exact hinside
    have hvalue : RegAccess.rawRegs ω (acc.addr reg) (some (val, mask)) (acc.addr reg) =
        RegAccess.maskedValue (ω (acc.addr reg)) val mask := by
      simp only [RegAccess.rawRegs, Function.update_self]
      split
      · rename_i hmask
        simp [RegAccess.maskedValue, hmask]
      · rfl
    rw [hvalue, hfield, hdata]
    exact maskedValue_fields _ hval
  · obtain ⟨ω', hrep', hsame⟩ := hspares b b' ω hrep hrun
    refine ⟨ω', hrep', ?_, ?_⟩
    · simp [hfield, hdata]
    · exact fun k _ => by rw [hsame]

/-- Masked writes of disjoint fields that run one after another all arrive, and
the bits outside all fields are left. -/
theorem Serial.masked {acc : RegAccess dev drv κ} (hfaithful : acc.Faithful)
    (hvalid : acc.valid reg) {field data : ι → BitVec 16}
    (hfields : FieldWrites acc name parties result reg field data) {order : List ι} {b b' : β}
    (h : Serial name dev.bus parties result order b b') (hnodup : order.Nodup)
    {ω : κ → BitVec 16} (hrep : acc.rep b ω) :
    ∃ ω', acc.rep b' ω' ∧ (∀ i ∈ order, ω' (acc.addr reg) &&& field i = data i) ∧
      ∀ k, (∀ i ∈ order, field i &&& k = 0) →
        ω' (acc.addr reg) &&& k = ω (acc.addr reg) &&& k := by
  induction h generalizing ω with
  | nil b => exact ⟨ω, hrep, by simp, fun _ _ => rfl⟩
  | @cons i rest b mid b' hrun hrest ih =>
      obtain ⟨hi, hnodup'⟩ := List.nodup_cons.mp hnodup
      obtain ⟨ω₁, hrep₁, hset, hkeep⟩ := hfields.run hfaithful hvalid hrun hrep
      obtain ⟨ω', hrep', hsets, hkeeps⟩ := ih hnodup' hrep₁
      refine ⟨ω', hrep', ?_, ?_⟩
      · intro j hj
        rcases List.mem_cons.mp hj with rfl | hj
        · -- the later parties have other fields
          rw [hkeeps (field j), hset]
          exact fun k hk => hfields.disjoint k j fun heq => hi (heq ▸ hk)
        · exact hsets j hj
      · intro k hk
        rw [hkeeps k fun j hj => hk j (List.mem_cons_of_mem _ hj), hkeep k (hk i List.mem_cons_self)]

end Masked

/-! ## Atomicity -/

/-- The state `c` that some interleaving of the parties has led to from the bus
state `b`. -/
structure Atomic [DecidableEq ι] (name : List Byte) (bus : MiiBus β) (parties : ι → Party) (b : β)
    (c : Conc ι PartyState β) : Prop where
  /-- A bus transaction is made by the holder of the lock. -/
  transaction_locked : ∀ i f, partyCode name bus (c.locals i) = .access f → c.holder = some i
  /-- A request holds the lock from in front of the loop to the label `exit`. -/
  lock_iff : ∀ i, c.holder = some i ↔ (c.locals i).phase = .inside
  /-- Every way out of the loop, and no `BUG`, leads to the unlock. -/
  exit_unlocks : ∀ i, c.locals i ≠ .bug ∧
    ∀ r why ret h c', c.locals i = .atExit r why ret h → Step (partyCode name bus) i c c' →
      c'.holder = none ∧ c'.locals i = .closing r ret h
  /-- The parties never wait for each other for ever. -/
  progress : (∀ i, ∃ res, (c.locals i).result = some res) ∨
    ∃ i c', Step (partyCode name bus) i c c'
  /-- When all have their results, these and the bus are those of a serial run. -/
  serial : ∀ result, (∀ i, (c.locals i).result = some (result i)) → c.holder = none ∧
    ∃ order : List ι, order.Nodup ∧ (∀ i, i ∈ order) ∧
      Serial name bus parties result order b c.shared
  /-- Masked writes of disjoint fields of a register have all arrived then. -/
  masked : ∀ result, (∀ i, (c.locals i).result = some (result i)) →
    ∀ (κ : Type) [DecidableEq κ] (dev : Device β) (drv : MdioDriver) (acc : RegAccess dev drv κ)
      (reg : BitVec 32) (ω : κ → BitVec 16) (field data : ι → BitVec 16),
      bus = dev.bus → acc.Faithful → acc.valid reg → acc.rep b ω →
      FieldWrites acc name parties result reg field data →
      ∃ ω', acc.rep c.shared ω' ∧ (∀ i, ω' (acc.addr reg) &&& field i = data i) ∧
        ∀ k, (∀ i, field i &&& k = 0) → ω' (acc.addr reg) &&& k = ω (acc.addr reg) &&& k

/-- A party is accepted: the program of a request is within the policy. -/
def Party.Accepted : Party → Prop
  | .xfer r => r.Accepted
  | .access _ => True

/-- Programs are atomic over any interleaving of any number of accepted requests
and single accesses. -/
theorem programs_atomic [Fintype ι] [DecidableEq ι] (name : List Byte) (bus : MiiBus β)
    (parties : ι → Party) (hacc : ∀ i, (parties i).Accepted) (b : β) {c : Conc ι PartyState β}
    (h : Interleaving (partyCode name bus) (.start (fun i => (parties i).start) b) c) :
    Atomic name bus parties b c := by
  have hd := partyCode_discipline name bus
  have hstart : ∀ i, (parties i).start.Sound ∧ (parties i).start.phase = .before := by
    intro i
    have hi := hacc i
    cases hp : parties i with
    | xfer r =>
        rw [hp] at hi
        exact ⟨hi, rfl⟩
    | access a => exact ⟨trivial, rfl⟩
  have hsound : ∀ i, (c.locals i).Sound := by
    obtain ⟨served, hserved⟩ := reaches_served hd hstart h
    exact hserved.inv
  have hserial : ∀ result, (∀ i, (c.locals i).result = some (result i)) → c.holder = none ∧
      ∃ order : List ι, order.Nodup ∧ (∀ i, i ∈ order) ∧
        Serial name bus parties result order b c.shared := by
    intro result hres
    obtain ⟨hfree, order, hnodup, hall, hserialTo⟩ :=
      hd.serializable hstart h Finset.univ.toList (by simp)
        fun i => (partyCode_halt_iff name bus (hsound i)).mpr ⟨result i, hres i⟩
    exact ⟨hfree, order, hnodup, hall, Serial.of_serialTo hserialTo hres⟩
  constructor
  case transaction_locked => exact fun i f hcode => hd.access_holds hstart h hcode
  case lock_iff => exact fun i => hd.holds_iff hstart h
  case exit_unlocks =>
    intro i
    refine ⟨fun hbug => ?_, fun r why ret hst c' hexit hstep => ?_⟩
    · have hi := hsound i
      rw [hbug] at hi
      exact hi
    · have hcode : partyCode name bus (c.locals i) = .unlock (.closing r ret hst) := by
        rw [hexit]
        rfl
      cases hstep with
      | unlock hnext =>
          rw [hcode] at hnext
          cases hnext
          exact ⟨rfl, Function.update_self ..⟩
      | silent hnext => rw [hcode] at hnext; cases hnext
      | lock hnext => rw [hcode] at hnext; cases hnext
      | access hnext => rw [hcode] at hnext; cases hnext
  case progress =>
    refine (hd.progress hstart h).imp (fun hhalt i => ?_) id
    exact (partyCode_halt_iff name bus (hsound i)).mp (hhalt i)
  case serial => exact hserial
  case masked =>
    intro result hres κ _ dev drv acc reg ω field data hbus hfaithful hvalid hrep hfields
    obtain ⟨-, order, hnodup, hall, hrun⟩ := hserial result hres
    subst hbus
    obtain ⟨ω', hrep', hset, hkeep⟩ := hrun.masked hfaithful hvalid hfields hnodup hrep
    exact ⟨ω', hrep', fun i => hset i (hall i), fun k hk => hkeep k fun i _ => hk i⟩

/-! ## Two masked writes -/

/-- A bus with a file of registers behind every address. -/
def regFile : Device (MdioTarget → BitVec 16 → BitVec 16) where
  read t reg b := (b t reg, b)
  write t reg val b := Function.update b t (Function.update (b t) reg val)

/-- The attribute with a program. -/
def progAttr (prog : MdioProg) : ProgAttr :=
  ⟨8 * prog.length, prog, by simp [sizeofInsn]⟩

/-- A request for a masked write of register 4 of the PHY at address 3. -/
def maskedRequest (val mask : BitVec 32) : XferRequest where
  env := exampleEnv []
  late _ _ := false
  attrs :=
    { busId := some ⟨[], []⟩
      timeout := none
      prog := some (progAttr (mdioCommonRawProg (phyDriver 3) 4 (some (val, mask))))
      data := false
      error := false }

/-- Two masked writes of different bits. -/
def twoMasked : Bool → Party
  | false => .xfer (maskedRequest 0x0001 0xfffe)
  | true => .xfer (maskedRequest 0x0100 0xfeff)

/-- Both requests arrive, the first runs while the second waits for the lock, and
the second runs. -/
def twoMaskedSchedule : List Bool :=
  [false, true, false] ++ List.replicate 6 false ++ List.replicate 8 true ++ [false]

/-- Two masked writes run atomically, and both arrive. -/
theorem programs_atomic_two_masked : ∃ c,
    Conc.follow (partyCode [] regFile.bus) twoMaskedSchedule
      (.start (fun i => (twoMasked i).start) fun _ _ => 0) = some c ∧
    c.shared (.c22 3) 4 = 0x0101 ∧ Atomic [] regFile.bus twoMasked (fun _ _ => 0) c := by
  have hend : (Conc.follow (partyCode [] regFile.bus) twoMaskedSchedule
      (.start (fun i => (twoMasked i).start) fun _ _ => 0)).map
        (fun c => c.shared (.c22 3) 4) = some 0x0101 := by rfl
  obtain ⟨c, hc, hshared⟩ := Option.map_eq_some_iff.mp hend
  have hacc : ∀ i, (twoMasked i).Accepted := by
    intro i
    cases i with
    | false =>
        rintro prog ⟨⟩
        exact ⟨by decide, rfl⟩
    | true =>
        rintro prog ⟨⟩
        exact ⟨by decide, rfl⟩
  exact ⟨c, hc, hshared,
    programs_atomic [] regFile.bus twoMasked hacc _ (Conc.follow_interleaving hc)⟩

end MdioTools.System
