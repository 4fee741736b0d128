import Mathlib.Algebra.Order.BigOperators.Group.List
import MdioTools.Client.Lag
import MdioTools.Device.SwitchCore

/-!
# Reading the trunk tables of a switch

A switch has a table that maps trunks to their ports and one that masks the
ports for its hash.  Each is behind one register: a write with the update bit
stores an entry, any write selects the entry that is read next, and the HashTrunk
bit stands in the register of the masks.  The program of the `lag` command reads
both tables entry by entry.

Main results:

- Definition {lit}`SwitchCore.recorded`: any switch, with a record of the
  accesses to its registers.
- Definition {lit}`trunkCore`: the tables.
- Theorem {lit}`mvlsLagProg_runs`: what the program does to any switch.
- Theorem {lit}`mvlsLagProg_readOnly`: it only selects entries, and emits the
  tables.
-/

namespace MdioTools.Device

open Client Kernel Library

/-! ## Accesses on record -/

/-- An access to a switch register, with its value. -/
inductive SwitchAccess
  | read (a : BitVec 5 × BitVec 5) (v : BitVec 16)
  | write (a : BitVec 5 × BitVec 5) (v : BitVec 16)
deriving DecidableEq

/-- A state, with the accesses so far. -/
structure Recorded (σ : Type) where
  state : σ
  log : List SwitchAccess

variable {σ : Type}

/-- A switch that keeps a record of the accesses to its registers. -/
def SwitchCore.recorded (core : SwitchCore σ) : SwitchCore (Recorded σ) where
  get a s :=
    let r := core.get a s.state
    (r.1, ⟨r.2, s.log ++ [.read a r.1]⟩)
  put a v s := ⟨core.put a v s.state, s.log ++ [.write a v]⟩

/-! ## The program -/

/-- The register numbers of the driver: the mapping and the masks. -/
def trunkMapReg : BitVec 32 := mvlsReg mvlsG2 0x08

def trunkMaskReg : BitVec 32 := mvlsReg mvlsG2 0x07

/-- The registers that they stand for. -/
def trunkMap : BitVec 5 × BitVec 5 := (0x1c, 0x08)

def trunkMask : BitVec 5 × BitVec 5 := (0x1c, 0x07)

/-- The map register is one of a global port. -/
theorem switchReg_trunkMap : SwitchReg trunkMapReg :=
  ⟨mvlsG2, 0x08, by decide, by decide, rfl⟩

/-- The mask register is one of a global port. -/
theorem switchReg_trunkMask : SwitchReg trunkMaskReg :=
  ⟨mvlsG2, 0x07, by decide, by decide, rfl⟩

/-- The fragment that reads an entry of the mapping. -/
def lagRead (id : BitVec 16) (i : Nat) : MdioProg :=
  mvlsWrite id [] trunkMapReg (immArg (BitVec.ofNat 32 i <<< 11)) ++
    (mvlsRead id [] trunkMapReg ++ [insn .emit (regArg 0) 0 0])

/-- The fragment that reads a mask. -/
def maskRead (id : BitVec 16) (i : Nat) : MdioProg :=
  mvlsModify id trunkMaskReg (1 <<< 11) (BitVec.ofNat 32 i <<< 12) ++
    (mvlsRead id [] trunkMaskReg ++ [insn .emit (regArg 0) 0 0])

/-- The program reads 16 maps and then eight masks. -/
theorem mvlsLagProg_eq (id : BitVec 16) : mvlsLagProg id =
    (List.range 16).flatMap (lagRead id) ++ (List.range 8).flatMap (maskRead id) := by
  unfold mvlsLagProg
  rw [foldl_fragments (maskRead id), foldl_fragments (lagRead id), List.nil_append]
  · intro prog i
    simp only [pushEmit, mdioProgPush]
    rw [mvlsRead_append id (mvlsWrite _ _ _ _), mvlsWrite_append]
    simp only [lagRead, List.append_assoc]
    rfl
  · intro prog i
    simp only [pushEmit, mdioProgPush]
    rw [mvlsRead_append id (mvlsWrite _ _ _ _), mvlsWrite_append, mvlsRead_append id prog]
    simp only [maskRead, mvlsModify, List.append_assoc]
    rfl

/-- The program fits in a request. -/
theorem mvlsLagProg_length (id : BitVec 16) : (mvlsLagProg id).length ≤ 512 := by
  have hemit (reg : BitVec 32) :
      (mvlsRead id [] reg ++ [insn .emit (regArg 0) 0 0]).length ≤ 9 := by
    have hread := mvlsRead_length id reg
    rw [List.length_append, List.length_singleton]
    omega
  have hlag : ∀ n ∈ (List.range 16).map fun i => (lagRead id i).length, n ≤ 17 := by
    rw [List.forall_mem_map]
    intro i _
    have hwrite := mvlsWrite_length id trunkMapReg (immArg (BitVec.ofNat 32 i <<< 11))
    have hread := hemit trunkMapReg
    rw [lagRead, List.length_append]
    omega
  have hmask : ∀ n ∈ (List.range 8).map fun i => (maskRead id i).length, n ≤ 27 := by
    rw [List.forall_mem_map]
    intro i _
    have hmodify := mvlsModify_length id trunkMaskReg (1 <<< 11) (BitVec.ofNat 32 i <<< 12)
    have hread := hemit trunkMaskReg
    rw [maskRead, List.length_append]
    omega
  have hlags : _ ≤ 16 * 17 := List.sum_le_card_nsmul _ 17 hlag
  have hmasks : _ ≤ 8 * 27 := List.sum_le_card_nsmul _ 27 hmask
  rw [mvlsLagProg_eq, List.length_append, List.length_flatMap, List.length_flatMap]
  omega

/-! ## Rounds -/

section Rounds

variable {ι τ : Type}

/-- A state passed through rounds, with the value that each returns. -/
def rounds (f : ι → τ → BitVec 16 × τ) : List ι → τ → List (BitVec 16) × τ
  | [], s => ([], s)
  | i :: l, s =>
      let r := f i s
      let t := rounds f l r.2
      (r.1 :: t.1, t.2)

variable {f : ι → τ → BitVec 16 × τ} {l : List ι} {s : τ}

/-- What every round keeps holds behind all of them. -/
theorem rounds_inv {I : τ → Prop} (h : ∀ i ∈ l, ∀ s, I s → I (f i s).2) (hs : I s) :
    I (rounds f l s).2 := by
  induction l generalizing s with
  | nil => exact hs
  | cons i l ih =>
      exact ih (fun j hj => h j (List.mem_cons_of_mem _ hj)) (h i List.mem_cons_self s hs)

/-- The values of the rounds, as far as they depend only on what the rounds
keep. -/
theorem rounds_map {κ : Type} {I : τ → Prop} {g : BitVec 16 → κ} {e : ι → κ}
    (h : ∀ i ∈ l, ∀ s, I s → g (f i s).1 = e i ∧ I (f i s).2) (hs : I s) :
    (rounds f l s).1.map g = l.map e := by
  induction l generalizing s with
  | nil => rfl
  | cons i l ih =>
      obtain ⟨hvalue, hnext⟩ := h i List.mem_cons_self s hs
      have hrest := ih (fun j hj => h j (List.mem_cons_of_mem _ hj)) hnext
      rw [List.map_cons, ← hvalue, ← hrest]
      rfl

end Rounds

variable (core : SwitchCore σ)

/-- A round of the mapping: select an entry and read it. -/
def lagRound (i : Nat) (s : σ) : BitVec 16 × σ :=
  core.get trunkMap (core.put trunkMap ((BitVec.ofNat 32 i <<< 11).setWidth 16) s)

/-- What is written to the register of the masks when it has read as a value. -/
def maskWord (i : Nat) (v : BitVec 16) : BitVec 16 :=
  v &&& (1 <<< 11 : BitVec 32).setWidth 16 ||| (BitVec.ofNat 32 i <<< 12).setWidth 16

/-- A round of the masks: read, select a mask and read it. -/
def maskRound (i : Nat) (s : σ) : BitVec 16 × σ :=
  let r := core.get trunkMask s
  core.get trunkMask (core.put trunkMask (maskWord i r.1) r.2)

/-- The entries of the mapping, and behind them the masks. -/
def lagDump (s : σ) : List (BitVec 16) × σ :=
  let lags := rounds (lagRound core) (List.range 16) s
  let masks := rounds (maskRound core) (List.range 8) lags.2
  (lags.1 ++ masks.1, masks.2)

/-! ## What the program does to any switch -/

section Runs

variable (adr : Addressing) {core} {s : σ} {d : VmData Words (adr.State σ)}

/-- Reading a map is one round on the switch. -/
theorem lagRead_runs (i : Nat) (hrep : adr.Represents d.bus s) :
    ∃ d', Runs (adr.device core) (lagRead adr.id i) d d' ∧
      d'.host = d.host ++ [(lagRound core i s).1.setWidth 32] ∧
      adr.Represents d'.bus (lagRound core i s).2 := by
  obtain ⟨d₁, hwrite, hscratch, hrep₁⟩ := adr.write_runs core switchReg_trunkMap
    (decodeRi_immArg (BitVec.ofNat 32 i <<< 11)) hrep
  obtain ⟨d', hemit, -, hhost, hrep'⟩ := adr.emit_runs core switchReg_trunkMap hrep₁
  exact ⟨d', hwrite.append hemit, hscratch.host ▸ hhost, hrep'⟩

/-- Reading a mask is one round on the switch. -/
theorem maskRead_runs (i : Nat) (hrep : adr.Represents d.bus s) :
    ∃ d', Runs (adr.device core) (maskRead adr.id i) d d' ∧
      d'.host = d.host ++ [(maskRound core i s).1.setWidth 32] ∧
      adr.Represents d'.bus (maskRound core i s).2 := by
  obtain ⟨d₁, hmodify, hscratch, hrep₁⟩ := adr.modify_runs core switchReg_trunkMask (1 <<< 11)
    (BitVec.ofNat 32 i <<< 12) hrep
  obtain ⟨d', hemit, -, hhost, hrep'⟩ := adr.emit_runs core switchReg_trunkMask hrep₁
  exact ⟨d', hmodify.append hemit, hscratch.host ▸ hhost, hrep'⟩

/-- Fragments that do a round each do all rounds. -/
theorem rounds_runs {ι : Type} {f : ι → σ → BitVec 16 × σ} {frag : ι → MdioProg}
    (h : ∀ i {s : σ} {d : VmData Words (adr.State σ)}, adr.Represents d.bus s →
      ∃ d', Runs (adr.device core) (frag i) d d' ∧ d'.host = d.host ++ [(f i s).1.setWidth 32] ∧
        adr.Represents d'.bus (f i s).2) (l : List ι) (hrep : adr.Represents d.bus s) :
    ∃ d', Runs (adr.device core) (l.flatMap frag) d d' ∧
      d'.host = d.host ++ (rounds f l s).1.map (·.setWidth 32) ∧
      adr.Represents d'.bus (rounds f l s).2 := by
  induction l generalizing s d with
  | nil => exact ⟨d, Runs.nil, (List.append_nil _).symm, hrep⟩
  | cons i l ih =>
      obtain ⟨d₁, hone, hhost₁, hrep₁⟩ := h i hrep
      obtain ⟨d', hrest, hhost', hrep'⟩ := ih hrep₁
      refine ⟨d', hone.append hrest, ?_, hrep'⟩
      rw [hhost', hhost₁, List.append_assoc]
      rfl

variable (core) in
/-- For both addressings and any switch, the program emits the values of the
rounds. -/
theorem mvlsLagProg_runs {b : adr.State σ} (hrep : adr.Represents b s) :
    ∃ b', (mdioNlEval (mvlsLagProg adr.id) (adr.device core).bus quietHost).Halts (.entry [] b)
        (.returned .progEnd 0 ((lagDump core s).1.map (·.setWidth 32)) b') ∧
      adr.Represents b' (lagDump core s).2 := by
  obtain ⟨d₁, hlags, hhost₁, hrep₁⟩ := rounds_runs adr (f := lagRound core)
    (fun i {_ _} => lagRead_runs adr i) (List.range 16) (d := ⟨fun _ => 0, [], b⟩) hrep
  obtain ⟨d', hmasks, hhost', hrep'⟩ := rounds_runs adr (f := maskRound core)
    (fun i {_ _} => maskRead_runs adr i) (List.range 8) hrep₁
  have hruns := hlags.append hmasks
  rw [← mvlsLagProg_eq] at hruns
  have hhalts := hruns.halts (mvlsLagProg_length adr.id)
  rw [hhost', hhost₁, List.nil_append, ← List.map_append] at hhalts
  exact ⟨d'.bus, hhalts, hrep'⟩

end Runs

/-! ## The record -/

/-- Accesses that write to the registers of the trunk tables only, without the
update bit, and to that of the masks with the HashTrunk bit that was read from it
last. -/
def OnlySelects : Option (BitVec 16) → List SwitchAccess → Prop
  | _, [] => True
  | last, .read a v :: log => OnlySelects (if a = trunkMask then some v else last) log
  | last, .write a v :: log =>
      (a = trunkMap ∨ a = trunkMask) ∧ v.getLsbD 15 = false ∧
        (a = trunkMask → last.map (·.getLsbD 11) = some (v.getLsbD 11)) ∧ OnlySelects last log

/-- Accesses that only select, whatever has been read before them, in front of
any others that do. -/
def SelectsBefore (log : List SwitchAccess) : Prop :=
  ∀ last rest, (∀ last', OnlySelects last' rest) → OnlySelects last (log ++ rest)

/-- Records that select before they read are put one behind another. -/
theorem SelectsBefore.append {log log' : List SwitchAccess} (h : SelectsBefore log)
    (h' : SelectsBefore log') : SelectsBefore (log ++ log') := by
  intro last rest hrest
  rw [List.append_assoc]
  exact h last _ fun last' => h' last' rest hrest

/-- Such a record writes to select only. -/
theorem SelectsBefore.onlySelects {log : List SwitchAccess} (h : SelectsBefore log)
    (last : Option (BitVec 16)) : OnlySelects last log := by
  have hall := h last [] fun _ => trivial
  rwa [List.append_nil] at hall

/-- The word that selects an entry of the mapping. -/
theorem lagWord_fields {i : Nat} (hi : i < 16) :
    ((BitVec.ofNat 32 i <<< 11).setWidth 16 : BitVec 16).getLsbD 15 = false ∧
      ((BitVec.ofNat 32 i <<< 11).setWidth 16 : BitVec 16).extractLsb' 11 4 = BitVec.ofNat 4 i := by
  have hall : ∀ i : Fin 16, ((BitVec.ofNat 32 i <<< 11).setWidth 16 : BitVec 16).getLsbD 15 = false ∧
      ((BitVec.ofNat 32 i <<< 11).setWidth 16 : BitVec 16).extractLsb' 11 4 = BitVec.ofNat 4 i := by
    decide
  exact hall ⟨i, hi⟩

/-- The word that selects a mask has the HashTrunk bit of the value read. -/
theorem maskWord_fields {i : Nat} (hi : i < 8) (v : BitVec 16) :
    (maskWord i v).getLsbD 15 = false ∧ (maskWord i v).getLsbD 11 = v.getLsbD 11 ∧
      (maskWord i v).extractLsb' 12 3 = BitVec.ofNat 3 i := by
  have hnum : ∀ i : Fin 8, ((BitVec.ofNat 32 i <<< 12).setWidth 16 : BitVec 16).getLsbD 15 = false ∧
      ((BitVec.ofNat 32 i <<< 12).setWidth 16 : BitVec 16).getLsbD 11 = false ∧
      ((BitVec.ofNat 32 i <<< 12).setWidth 16 : BitVec 16).extractLsb' 12 3 = BitVec.ofNat 3 i := by
    decide
  have hkeep : ((1 <<< 11 : BitVec 32).setWidth 16 : BitVec 16).getLsbD 15 = false ∧
      ((1 <<< 11 : BitVec 32).setWidth 16 : BitVec 16).getLsbD 11 = true ∧
      ((1 <<< 11 : BitVec 32).setWidth 16 : BitVec 16).extractLsb' 12 3 = 0 := by
    decide
  obtain ⟨hupdate, hhash, hselect⟩ := hnum ⟨i, hi⟩
  refine ⟨?_, ?_, ?_⟩
  · rw [maskWord, BitVec.getLsbD_or, BitVec.getLsbD_and, hkeep.1, hupdate, Bool.and_false]
    rfl
  · rw [maskWord, BitVec.getLsbD_or, BitVec.getLsbD_and, hkeep.2.1, hhash, Bool.and_true,
      Bool.or_false]
  · rw [maskWord, BitVec.extractLsb'_or, BitVec.extractLsb'_and, hkeep.2.2, hselect]
    simp

/-- A round of the mapping on record. -/
theorem lagRound_log {i : Nat} (hi : i < 16) (s : Recorded σ) :
    ∃ log, (lagRound core.recorded i s).2.log = s.log ++ log ∧ SelectsBefore log := by
  refine ⟨[.write trunkMap _, .read trunkMap _], List.append_assoc _ _ _, ?_⟩
  intro last rest hrest
  exact ⟨.inl rfl, (lagWord_fields hi).1, fun h => absurd h (by decide), hrest _⟩

/-- A round of the masks on record: the word that is written has the HashTrunk bit
that was read before. -/
theorem maskRound_log {i : Nat} (hi : i < 8) (s : Recorded σ) :
    ∃ log, (maskRound core.recorded i s).2.log = s.log ++ log ∧ SelectsBefore log := by
  let first := core.get trunkMask s.state
  let word := maskWord i first.1
  refine ⟨[.read trunkMask first.1, .write trunkMask word,
    .read trunkMask (core.get trunkMask (core.put trunkMask word first.2)).1], ?_, ?_⟩
  · exact (List.append_assoc _ _ _).trans (List.append_assoc _ _ _)
  · intro last rest hrest
    obtain ⟨hupdate, hhash, -⟩ := maskWord_fields hi first.1
    exact ⟨.inr rfl, hupdate, fun _ => congrArg some hhash.symm, hrest _⟩

/-- The accesses of all rounds. -/
theorem lagDump_log (s : Recorded σ) :
    ∃ log, (lagDump core.recorded s).2.log = s.log ++ log ∧ ∀ last, OnlySelects last log := by
  let I : Recorded σ → Prop := fun s' => ∃ log, s'.log = s.log ++ log ∧ SelectsBefore log
  have hnext : ∀ s' s'' : Recorded σ, I s' →
      (∃ log, s''.log = s'.log ++ log ∧ SelectsBefore log) → I s'' := by
    rintro s' s'' ⟨log, hlog, hselects⟩ ⟨log', hlog', hselects'⟩
    exact ⟨log ++ log', by rw [hlog', hlog, List.append_assoc], hselects.append hselects'⟩
  have hlags : I (rounds (lagRound core.recorded) (List.range 16) s).2 := by
    refine rounds_inv (fun i hi s' hs' => ?_) ⟨[], (List.append_nil _).symm, fun _ _ h => h _⟩
    exact hnext s' _ hs' (lagRound_log core (List.mem_range.mp hi) s')
  have hmasks : I (lagDump core.recorded s).2 := by
    refine rounds_inv (fun i hi s' hs' => ?_) hlags
    exact hnext s' _ hs' (maskRound_log core (List.mem_range.mp hi) s')
  obtain ⟨log, hlog, hselects⟩ := hmasks
  exact ⟨log, hlog, hselects.onlySelects⟩

/-! ## The tables -/

/-- The other registers of a switch, both tables, the HashTrunk bit, the entries
that are selected, and what the registers show above them. -/
structure TrunkSwitch where
  regs : SwitchRegs
  lags : BitVec 4 → BitVec 11
  masks : BitVec 3 → BitVec 11
  hash : Bool
  lag : BitVec 4
  mask : BitVec 3
  aboveLag : BitVec 5
  aboveMask : BitVec 4

namespace TrunkSwitch

/-- A read of the registers of the tables shows the selected entry. -/
def get (a : BitVec 5 × BitVec 5) (s : TrunkSwitch) : BitVec 16 × TrunkSwitch :=
  if a = trunkMap then (s.aboveLag ++ s.lags s.lag, s)
  else if a = trunkMask then (s.aboveMask ++ (BitVec.ofBool s.hash ++ s.masks s.mask), s)
  else (s.regs a, s)

/-- A write of them selects an entry, and stores it if the update bit is set.  The
HashTrunk bit is that of the last write. -/
def put (a : BitVec 5 × BitVec 5) (v : BitVec 16) (s : TrunkSwitch) : TrunkSwitch :=
  if a = trunkMap then
    let n := v.extractLsb' 11 4
    { s with
      lag := n
      lags := if v.getLsbD 15 then Function.update s.lags n (v.setWidth 11) else s.lags }
  else if a = trunkMask then
    let n := v.extractLsb' 12 3
    { s with
      mask := n
      hash := v.getLsbD 11
      masks := if v.getLsbD 15 then Function.update s.masks n (v.setWidth 11) else s.masks }
  else { s with regs := Function.update s.regs a v }

/-- Nothing but the selection has changed. -/
structure Kept (s s' : TrunkSwitch) : Prop where
  regs : s'.regs = s.regs
  lags : s'.lags = s.lags
  masks : s'.masks = s.masks
  hash : s'.hash = s.hash

/-- A switch keeps its tables. -/
theorem Kept.refl (s : TrunkSwitch) : s.Kept s :=
  ⟨rfl, rfl, rfl, rfl⟩

/-- Tables that are kept step by step are kept. -/
theorem Kept.trans {s s' s'' : TrunkSwitch} (h : s.Kept s') (h' : s'.Kept s'') : s.Kept s'' :=
  ⟨h'.regs.trans h.regs, h'.lags.trans h.lags, h'.masks.trans h.masks, h'.hash.trans h.hash⟩

end TrunkSwitch

def trunkCore : SwitchCore TrunkSwitch where
  get := TrunkSwitch.get
  put := TrunkSwitch.put

/-- A round of the mapping returns an entry, and keeps the tables. -/
theorem lagRound_trunk {i : Nat} (hi : i < 16) (s : TrunkSwitch) :
    (lagRound trunkCore i s).1.setWidth 11 = s.lags (BitVec.ofNat 4 i) ∧
      s.Kept (lagRound trunkCore i s).2 := by
  obtain ⟨hupdate, hselect⟩ := lagWord_fields hi
  have hput : trunkCore.put trunkMap ((BitVec.ofNat 32 i <<< 11).setWidth 16) s =
      { s with lag := BitVec.ofNat 4 i } := by
    simp only [trunkCore, TrunkSwitch.put, if_true, hupdate, hselect, Bool.false_eq_true, if_false]
  rw [lagRound, hput]
  exact ⟨BitVec.setWidth_append_eq_right, rfl, rfl, rfl, rfl⟩

/-- What the register of the masks shows. -/
theorem maskShown_fields (above : BitVec 4) (hash : Bool) (mask : BitVec 11) :
    (above ++ (BitVec.ofBool hash ++ mask) : BitVec 16).getLsbD 11 = hash ∧
      (above ++ (BitVec.ofBool hash ++ mask) : BitVec 16).setWidth 11 = mask := by
  constructor
  · rw [BitVec.getLsbD_append, BitVec.getLsbD_append]
    simp
  · rw [BitVec.setWidth_append, dif_pos (by omega)]
    exact BitVec.setWidth_append_eq_right

/-- A round of the masks returns a mask, and keeps the tables and HashTrunk. -/
theorem maskRound_trunk {i : Nat} (hi : i < 8) (s : TrunkSwitch) :
    (maskRound trunkCore i s).1.setWidth 11 = s.masks (BitVec.ofNat 3 i) ∧
      s.Kept (maskRound trunkCore i s).2 := by
  have hne : trunkMask ≠ trunkMap := by decide
  have hget : ∀ s : TrunkSwitch, trunkCore.get trunkMask s =
      (s.aboveMask ++ (BitVec.ofBool s.hash ++ s.masks s.mask), s) := fun s => by
    simp only [trunkCore, TrunkSwitch.get, if_neg hne, if_true]
  obtain ⟨hupdate, hhash, hselect⟩ := maskWord_fields hi (trunkCore.get trunkMask s).1
  have hkept : (trunkCore.get trunkMask s).1.getLsbD 11 = s.hash := by
    rw [hget]
    exact (maskShown_fields s.aboveMask s.hash (s.masks s.mask)).1
  have hput : trunkCore.put trunkMask (maskWord i (trunkCore.get trunkMask s).1) s =
      { s with mask := BitVec.ofNat 3 i } := by
    simp only [trunkCore, TrunkSwitch.put, if_neg hne, if_true] at hupdate hhash hselect hkept ⊢
    simp only [hupdate, hhash, hselect, hkept, Bool.false_eq_true, if_false]
  have hround : maskRound trunkCore i s =
      trunkCore.get trunkMask { s with mask := BitVec.ofNat 3 i } := by
    rw [← hput, maskRound, hget s]
  rw [hround, hget]
  exact ⟨(maskShown_fields _ _ _).2, rfl, rfl, rfl, rfl⟩

/-- All rounds return the entries and the masks in order, and keep the tables and
HashTrunk. -/
theorem lagDump_trunk (s : TrunkSwitch) :
    (lagDump trunkCore s).1.map (·.setWidth 11) =
        (List.range 16).map (fun i => s.lags (BitVec.ofNat 4 i)) ++
          (List.range 8).map (fun i => s.masks (BitVec.ofNat 3 i)) ∧
      s.Kept (lagDump trunkCore s).2 := by
  have hlag : ∀ i ∈ List.range 16, ∀ t, s.Kept t →
      (lagRound trunkCore i t).1.setWidth 11 = s.lags (BitVec.ofNat 4 i) ∧
        s.Kept (lagRound trunkCore i t).2 := by
    intro i hi t ht
    obtain ⟨hvalue, hkept⟩ := lagRound_trunk (List.mem_range.mp hi) t
    exact ⟨hvalue.trans (congrFun ht.lags _), ht.trans hkept⟩
  have hmask : ∀ i ∈ List.range 8, ∀ t, s.Kept t →
      (maskRound trunkCore i t).1.setWidth 11 = s.masks (BitVec.ofNat 3 i) ∧
        s.Kept (maskRound trunkCore i t).2 := by
    intro i hi t ht
    obtain ⟨hvalue, hkept⟩ := maskRound_trunk (List.mem_range.mp hi) t
    exact ⟨hvalue.trans (congrFun ht.masks _), ht.trans hkept⟩
  have hmid := rounds_inv (fun i hi t ht => (hlag i hi t ht).2) (TrunkSwitch.Kept.refl s)
  refine ⟨?_, rounds_inv (fun i hi t ht => (hmask i hi t ht).2) hmid⟩
  rw [lagDump, List.map_append]
  exact congrArg₂ (· ++ ·) (rounds_map hlag (TrunkSwitch.Kept.refl s)) (rounds_map hmask hmid)

/-- For both addressings and every time that the commands take: whatever the
registers of the switch return, the run of the program ends, and it writes to the
registers of the trunk tables only, without the update bit, and to that of the
masks with the HashTrunk bit that it has just read from it.  On every switch with
trunk tables, the words that it emits carry the sixteen entries of the mapping
and the eight masks in order, which is what the callback prints, and both tables,
HashTrunk and all other registers are as they were. -/
theorem mvlsLagProg_readOnly (adr : Addressing) :
    (∀ {σ : Type} (core : SwitchCore σ) (b : adr.State (Recorded σ)) (s : Recorded σ),
      adr.Represents b s → ∃ words b' s' log,
        (mdioNlEval (mvlsLagProg adr.id) (adr.device core.recorded).bus quietHost).Halts
          (.entry [] b) (.returned .progEnd 0 words b') ∧ adr.Represents b' s' ∧
        s'.log = s.log ++ log ∧ OnlySelects none log) ∧
    ∀ (b : adr.State TrunkSwitch) (s : TrunkSwitch), adr.Represents b s → ∃ words b' s',
      (mdioNlEval (mvlsLagProg adr.id) (adr.device trunkCore).bus quietHost).Halts
        (.entry [] b) (.returned .progEnd 0 words b') ∧ adr.Represents b' s' ∧ s.Kept s' ∧
      words.map (·.setWidth 11) = (List.range 16).map (fun i => s.lags (BitVec.ofNat 4 i)) ++
        (List.range 8).map (fun i => s.masks (BitVec.ofNat 3 i)) ∧
      mvlsLagCb words 0 = (0, lagListing (fun i => s.lags (BitVec.ofNat 4 i))
        (fun i => s.masks (BitVec.ofNat 3 i))) := by
  constructor
  · intro σ core b s hrep
    obtain ⟨b', hhalts, hrep'⟩ := mvlsLagProg_runs core.recorded adr hrep
    obtain ⟨log, hlog, hselects⟩ := lagDump_log core s
    exact ⟨_, b', _, log, hhalts, hrep', hlog, hselects none⟩
  · intro b s hrep
    obtain ⟨b', hhalts, hrep'⟩ := mvlsLagProg_runs trunkCore adr hrep
    obtain ⟨hentries, hkept⟩ := lagDump_trunk s
    have hwords : ((lagDump trunkCore s).1.map (·.setWidth 32)).map (·.setWidth 11) =
        (List.range 16).map (fun i => s.lags (BitVec.ofNat 4 i)) ++
          (List.range 8).map (fun i => s.masks (BitVec.ofNat 3 i)) := by
      rw [← hentries, List.map_map]
      exact List.map_congr_left fun v _ => BitVec.setWidth_setWidth_of_le v (by omega)
    exact ⟨_, b', _, hhalts, hrep', hkept, hwords, mvlsLagCb_listing 0 hwords⟩

/-- A switch with a trunk of ports 1 and 2, and HashTrunk set. -/
def twoPortTrunk : TrunkSwitch where
  regs _ := 0
  lags n := if n = 3 then 0x006 else 0
  masks n := if n.getLsbD 0 then 0x002 else 0x004
  hash := true
  lag := 9
  mask := 5
  aboveLag := 0x1f
  aboveMask := 0

/-- The hypotheses are met by such a switch with address 4, also with a record of its
accesses. -/
theorem mvlsLagProg_readOnly_two_ports :
    (∃ words b' log,
      (mdioNlEval (mvlsLagProg 4) (smiCore trunkCore.recorded 4 0xbeef).bus quietHost).Halts
        (.entry [] ⟨⟨twoPortTrunk, []⟩, 0, 0, none, fun k => k⟩) (.returned .progEnd 0 words b') ∧
      b'.core.log = log ∧ OnlySelects none log) ∧
    ∃ words b',
      (mdioNlEval (mvlsLagProg 4) (smiCore trunkCore 4 0xbeef).bus quietHost).Halts
        (.entry [] ⟨twoPortTrunk, 0, 0, none, fun k => k⟩) (.returned .progEnd 0 words b') ∧
      twoPortTrunk.Kept b'.core ∧
      (words.map (·.setWidth 11 : BitVec 32 → BitVec 11))[3]? = some 0x006 := by
  obtain ⟨hany, htrunk⟩ := mvlsLagProg_readOnly (.multi 4 0xbeef (by decide))
  constructor
  · obtain ⟨words, b', s', log, hhalts, hrep, hlog, hselects⟩ :=
      hany trunkCore ⟨⟨twoPortTrunk, []⟩, 0, 0, none, fun k => k⟩ ⟨twoPortTrunk, []⟩ ⟨rfl, rfl⟩
    refine ⟨words, b', log, hhalts, ?_, hselects⟩
    rw [show SmiCore.core b' = s' from hrep.2]
    exact hlog
  · obtain ⟨words, b', s', hhalts, hrep, hkept, hwords, -⟩ :=
      htrunk ⟨twoPortTrunk, 0, 0, none, fun k => k⟩ twoPortTrunk ⟨rfl, rfl⟩
    refine ⟨words, b', hhalts, ?_, by rw [hwords]; rfl⟩
    rw [show SmiCore.core b' = s' from hrep.2]
    exact hkept

end MdioTools.Device
