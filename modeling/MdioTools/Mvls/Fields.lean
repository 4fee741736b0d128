import Mathlib.Tactic.FinCases
import MdioTools.Mvls.Json
import MdioTools.Mvls.Show

/-!
# The fields of the entries

An entry of the ATU has a state of four bits that means one thing for a unicast
address and another for a multicast one.  The entries of the VTU and the STU have
two bits for each port, which share the data words.

Main results:

- Theorem {lit}`devAtuParse_iff`: when a priority override is decoded as the
  printers name the state.
- Theorems {lit}`MemberBits.code_congr` and {lit}`MemberBits.code_pack`: a field is
  its own two bits, and the fields are put together and taken apart.
- Theorem {lit}`memberFields`: the fields of different ports do not overlap.
-/

namespace MdioTools.Mvls

open Library

/-! ## Bits -/

/-- A bit of a field is a bit of the word. -/
theorem testBit_bits (reg : BitVec 16) (pos n i : Nat) :
    (bits reg pos n).testBit i = (decide (i < n) && reg.getLsbD (pos + i)) := by
  rw [bits, Nat.one_shiftLeft, Nat.testBit_and, Nat.testBit_shiftRight,
    Nat.testBit_two_pow_sub_one, BitVec.testBit_toNat, Bool.and_comm]

/-- Fields are the same if their bits are. -/
theorem bits_congr {reg reg' : BitVec 16} {pos pos' n : Nat}
    (h : ∀ i, i < n → reg.getLsbD (pos + i) = reg'.getLsbD (pos' + i)) :
    bits reg pos n = bits reg' pos' n := by
  refine Nat.eq_of_testBit_eq fun i => ?_
  rw [testBit_bits, testBit_bits]
  by_cases hi : i < n
  · rw [h i hi]
  · simp [hi]

/-! ## The ATU -/

/-- The names of the unicast and the multicast states, of both printers. -/
def atuNames : List (List String × List String) :=
  [(atuUcStr, atuMcStr), (jsonAtuUcStr, jsonAtuMcStr)]

/-- A name says that the priority is overridden. -/
def namedPo (name : String) : Bool :=
  "-po".toList.isSuffixOf name.toList

/-- The words of the bytes of the address, the higher byte of a word first. -/
def MvAtuEntry.addrWord (k : MvAtuEntry) : Fin 6 → BitVec 16 :=
  ![k.atu01, k.atu01, k.atu23, k.atu23, k.atu45, k.atu45]

/-- The group bit of the address, the lowest of the first byte. -/
def MvAtuEntry.group (k : MvAtuEntry) : Bool :=
  k.atu01.getLsbD 8

/-- An entry is decoded: the priority of the queue is overridden if the state is
named so, with the names for its kind of address, that of the frame if the family
supports it too, and the rest are the bits of the words. -/
structure AtuDecodes (haveFpri : Bool) (k : MvAtuEntry) (entry : AtuEntry) : Prop where
  qpri : ∀ names ∈ atuNames, entry.qpri.set =
    namedPo ((if k.group then names.2 else names.1).getD (bits k.atuData 0 4) "")
  fpri : entry.fpri.set = (haveFpri && entry.qpri.set)
  unset : (entry.qpri.set = false → entry.qpri.pri = 0) ∧
    (entry.fpri.set = false → entry.fpri.pri = 0)
  addr : ∀ i j, (entry.addr i).testBit j =
    (decide (j < 8) && (k.addrWord i).getLsbD ((if i.val % 2 = 0 then 8 else 0) + j))
  fid : entry.fid = k.fid
  lag : entry.lag = k.atuData.getLsbD 15
  portvec : ∀ j, entry.portvec.getLsbD j = (decide (j < 11) && k.atuData.getLsbD (4 + j))
  state : entry.state = bits k.atuData 0 4

/-- The states 9 and b of a multicast address are taken for those of a unicast
one. -/
theorem prioOverrideState_eq_iff :
    ∀ names ∈ atuNames, ∀ mc : Bool, ∀ state < 16, prioOverrideState mc state =
        namedPo ((if mc then names.2 else names.1).getD state "") ↔
      ¬(mc = true ∧ (state = 0x9 ∨ state = 0xb)) := by
  decide

/-- The group bit of an entry is that of its address. -/
theorem MvAtuEntry.group_eq (k : MvAtuEntry) : decide (bits k.atu01 8 8 % 2 = 1) = k.group := by
  have h := testBit_bits k.atu01 8 8 0
  rwa [Nat.testBit_zero] at h

/-- The top bit of the data says that the port is a trunk. -/
theorem lag_eq (k : MvAtuEntry) : bit k.atuData 15 = k.atuData.getLsbD 15 :=
  bit_eq _ _

/-- The port vector has eleven bits of the data. -/
theorem portvec_getLsbD (k : MvAtuEntry) (j : Nat) :
    (BitVec.ofNat 16 (bits k.atuData 4 11)).getLsbD j =
      (decide (j < 11) && k.atuData.getLsbD (4 + j)) := by
  rw [BitVec.getLsbD_ofNat, testBit_bits]
  by_cases hj : j < 11
  · simp [hj, show j < 16 by omega]
  · simp [hj]

/-- All but the override of the queue is decoded always. -/
theorem atuDecodes_iff {haveFpri : Bool} {k : MvAtuEntry} (hstate : bits k.atuData 0 4 ≠ 0) :
    (∃ entry, devAtuParse haveFpri k = some entry ∧ AtuDecodes haveFpri k entry) ↔
      ∀ names ∈ atuNames, prioOverrideState k.group (bits k.atuData 0 4) =
        namedPo ((if k.group then names.2 else names.1).getD (bits k.atuData 0 4) "") := by
  have hgroup : decide ((![bits k.atu01 8 8, bits k.atu01 0 8, bits k.atu23 8 8, bits k.atu23 0 8,
      bits k.atu45 8 8, bits k.atu45 0 8] : Fin 6 → Nat) 0 % 2 = 1) = k.group := k.group_eq
  simp only [devAtuParse, if_neg hstate, Option.some.injEq, exists_eq_left', hgroup]
  constructor
  · exact fun h => h.qpri
  · intro hqpri
    refine ⟨hqpri, rfl, ⟨fun hset => ?_, fun hset => ?_⟩, fun i j => ?_, rfl, lag_eq k,
      portvec_getLsbD k, rfl⟩
    · exact if_neg (by simpa using hset)
    · exact if_neg (by simpa using hset)
    · fin_cases i <;> exact (testBit_bits _ _ _ _).trans (by simp [MvAtuEntry.addrWord])

/-- An entry in use is decoded, but for the priority override of the states 9 and b
of a multicast address. -/
theorem devAtuParse_iff (haveFpri : Bool) (k : MvAtuEntry) (hstate : bits k.atuData 0 4 ≠ 0) :
    (∃ entry, devAtuParse haveFpri k = some entry ∧ AtuDecodes haveFpri k entry) ↔
      ¬(k.group = true ∧ (bits k.atuData 0 4 = 0x9 ∨ bits k.atuData 0 4 = 0xb)) := by
  have hnames := fun names hmem =>
    prioOverrideState_eq_iff names hmem k.group (bits k.atuData 0 4) (bits_lt _ _ _)
  rw [atuDecodes_iff hstate]
  constructor
  · exact fun h => (hnames (atuUcStr, atuMcStr) List.mem_cons_self).mp (h _ List.mem_cons_self)
  · exact fun h names hmem => (hnames names hmem).mpr h

/-- The hypothesis is met by a static unicast entry with a priority. -/
theorem devAtuParse_iff_static : ∃ entry,
    devAtuParse false ⟨1, 0x0500, 0x001f, 0x0022, 0x3344, 0x5566⟩ = some entry ∧
      AtuDecodes false ⟨1, 0x0500, 0x001f, 0x0022, 0x3344, 0x5566⟩ entry :=
  (devAtuParse_iff false _ (by decide)).mpr (by decide)

/-- A multicast entry in the state `resvd9` has its priority overridden. -/
theorem devAtuParse_resvd9 :
    (devAtuParse true ⟨1, 0x0500, 0x0019, 0x0100, 0x5e00, 0x0001⟩).map (fun entry =>
      (entry.addr 0, atuMcStr.getD entry.state "", entry.qpri)) =
        some (1, "resvd9", ⟨true, 5⟩) ∧
    ¬∃ entry, devAtuParse true ⟨1, 0x0500, 0x0019, 0x0100, 0x5e00, 0x0001⟩ = some entry ∧
      AtuDecodes true ⟨1, 0x0500, 0x0019, 0x0100, 0x5e00, 0x0001⟩ entry := by
  refine ⟨by decide, ?_⟩
  rw [atuDecodes_iff (by decide)]
  decide

/-! ## Fields of two bits -/

namespace MemberBits

variable (m : MemberBits)

/-- The word of the field of a port, and the place of its first bit. -/
def word (i : Fin maxPorts) : Fin 3 :=
  ⟨i.val / (16 / m.mbits), m.inside i⟩

def pos (offs : Nat) (i : Fin maxPorts) : Nat :=
  (i.val * m.mbits + offs) &&& 0xf

/-- The code of a port is two bits of its word. -/
theorem code_eq (data : Fin 3 → BitVec 16) (offs : Nat) (i : Fin maxPorts) :
    m.code data offs i = bits (data (m.word i)) (m.pos offs i) 2 :=
  rfl

/-- Two entries have the same two bits for a port. -/
def SameBits (offs : Nat) (i : Fin maxPorts) (data data' : Fin 3 → BitVec 16) : Prop :=
  ∀ b < 2, (data (m.word i)).getLsbD (m.pos offs i + b) =
    (data' (m.word i)).getLsbD (m.pos offs i + b)

/-- A field is its own two bits. -/
theorem code_congr {offs : Nat} {i : Fin maxPorts} {data data' : Fin 3 → BitVec 16}
    (h : m.SameBits offs i data data') : m.code data offs i = m.code data' offs i :=
  bits_congr h

end MemberBits

/-- Some bits of a word are replaced. -/
def putBits (reg : BitVec 16) (pos n v : Nat) : BitVec 16 :=
  (reg &&& ~~~(BitVec.ofNat 16 (2 ^ n - 1) <<< pos)) ||| (BitVec.ofNat 16 (v % 2 ^ n) <<< pos)

/-- Bits that are put are read back, and the others stay. -/
theorem getLsbD_putBits (reg : BitVec 16) {pos n v b : Nat} (hb : b < 16) :
    (putBits reg pos n v).getLsbD b =
      if pos ≤ b ∧ b < pos + n then v.testBit (b - pos) else reg.getLsbD b := by
  simp only [putBits, BitVec.getLsbD_or, BitVec.getLsbD_and, BitVec.getLsbD_not,
    BitVec.getLsbD_shiftLeft, BitVec.getLsbD_ofNat, Nat.testBit_two_pow_sub_one,
    Nat.testBit_mod_two_pow]
  by_cases hlow : b < pos
  · simp [hlow, hb, show ¬pos ≤ b by omega]
  · by_cases hhigh : b - pos < n
    · simp [hlow, hb, hhigh, show pos ≤ b by omega, show b < pos + n by omega,
        show b - pos < 16 by omega]
    · simp [hlow, hb, hhigh, show ¬b < pos + n by omega]

namespace MemberBits

variable (m : MemberBits)

/-- The two bits of a port are replaced. -/
def put (offs : Nat) (i : Fin maxPorts) (v : Nat) (data : Fin 3 → BitVec 16) : Fin 3 → BitVec 16 :=
  Function.update data (m.word i) (putBits (data (m.word i)) (m.pos offs i) 2 v)

/-- The fields of all ports are replaced, one after another. -/
def pack (offs : Nat) (codes : Fin maxPorts → Nat) (data : Fin 3 → BitVec 16) :
    Fin 3 → BitVec 16 :=
  (List.finRange maxPorts).foldl (fun data i => m.put offs i (codes i) data) data

/-- Two fields have no bit in common. -/
def Apart (offs : Nat) (i : Fin maxPorts) (offs' : Nat) (j : Fin maxPorts) : Prop :=
  m.word i ≠ m.word j ∨ m.pos offs i + 2 ≤ m.pos offs' j ∨ m.pos offs' j + 2 ≤ m.pos offs i

instance (offs : Nat) (i : Fin maxPorts) (offs' : Nat) (j : Fin maxPorts) :
    Decidable (m.Apart offs i offs' j) :=
  inferInstanceAs (Decidable (_ ∨ _ ∨ _))

variable {m} {offs offs' : Nat} {i j : Fin maxPorts}

/-- A field that has been put is read back. -/
theorem code_put_self (hfits : m.pos offs i + 2 ≤ 16) (v : Nat) (data : Fin 3 → BitVec 16) :
    m.code (m.put offs i v data) offs i = v % 4 := by
  rw [code_eq, put, Function.update_self]
  refine Nat.eq_of_testBit_eq fun b => ?_
  rw [testBit_bits, show 4 = 2 ^ 2 from rfl, Nat.testBit_mod_two_pow]
  by_cases hb : b < 2
  · rw [getLsbD_putBits _ (by omega), if_pos ⟨by omega, by omega⟩, Nat.add_sub_cancel_left]
  · simp [hb]

/-- The others are left alone. -/
theorem code_put_of_apart (h : m.Apart offs i offs' j) (hfits : m.pos offs' j + 2 ≤ 16) (v : Nat)
    (data : Fin 3 → BitVec 16) : m.code (m.put offs i v data) offs' j = m.code data offs' j := by
  refine m.code_congr fun b hb => ?_
  by_cases hword : m.word j = m.word i
  · rw [put, hword, Function.update_self, getLsbD_putBits _ (by omega), if_neg]
    rintro ⟨hlow, hhigh⟩
    rcases h with hne | hbelow | habove
    · exact hne hword.symm
    · omega
    · omega
  · rw [put, Function.update_of_ne hword]

/-- The fields are put together and taken apart. -/
theorem code_pack (hfits : ∀ i, m.pos offs i + 2 ≤ 16)
    (hapart : ∀ i j, i ≠ j → m.Apart offs i offs j) (codes : Fin maxPorts → Nat)
    (data : Fin 3 → BitVec 16) (i : Fin maxPorts) :
    m.code (m.pack offs codes data) offs i = codes i % 4 := by
  have hfold : ∀ (ports : List (Fin maxPorts)) (data : Fin 3 → BitVec 16),
      m.code (ports.foldl (fun data i => m.put offs i (codes i) data) data) offs i =
        if i ∈ ports then codes i % 4 else m.code data offs i := by
    intro ports
    induction ports with
    | nil => exact fun data => rfl
    | cons j ports ih =>
        intro data
        rw [List.foldl_cons, ih]
        by_cases hmem : i ∈ ports
        · rw [if_pos hmem, if_pos (List.mem_cons_of_mem _ hmem)]
        · rw [if_neg hmem]
          by_cases hij : i = j
          · subst hij
            rw [if_pos List.mem_cons_self, code_put_self (hfits i)]
          · rw [if_neg (by simp [hij, hmem]), code_put_of_apart (hapart j i (Ne.symm hij)) (hfits i)]
  rw [pack, hfold, if_pos (List.mem_finRange i)]

/-- Fields at another offset are left alone by all of them. -/
theorem code_pack_of_apart (h : ∀ i, m.Apart offs i offs' j) (hfits : m.pos offs' j + 2 ≤ 16)
    (codes : Fin maxPorts → Nat) (data : Fin 3 → BitVec 16) :
    m.code (m.pack offs codes data) offs' j = m.code data offs' j := by
  exact List.foldlRecOn (motive := fun packed => m.code packed offs' j = m.code data offs' j) _ _
    rfl fun packed hpacked i _ => (code_put_of_apart (h i) hfits _ packed).trans hpacked

end MemberBits

/-! ## The VTU and the STU -/

/-- The code of a member. -/
def VtuMember.code : VtuMember → Nat
  | .unmodified => 0
  | .untagged => 1
  | .tagged => 2
  | .notMember => 3

/-- The membership of a port is read back. -/
theorem VtuMember.ofCode_code (v : VtuMember) : ofCode (v.code % 4) = v := by
  cases v <;> rfl

/-- The state of a port is read back. -/
theorem StuState.ofCode_code (s : StuState) : ofCode (s.code % 4) = s := by
  cases s <;> rfl

/-- Where the states are in the field of a port. -/
def stuOffs (m : MemberBits) : Nat :=
  if m.mbits = 4 then 2 else 0

/-- A layout in which the fields of members and those of states are each apart. -/
structure Layout (m : MemberBits) : Prop where
  inside : ∀ offs ∈ [0, stuOffs m], ∀ i, m.pos offs i + 2 ≤ 16
  apart : ∀ offs ∈ [0, stuOffs m], ∀ i j, i ≠ j → m.Apart offs i offs j

/-- The bits of the Opal family are a layout. -/
theorem layout_opal : Layout opalBits :=
  ⟨by decide, by decide⟩

/-- The bits of the Peridot family are a layout. -/
theorem layout_peridot : Layout peridotBits :=
  ⟨by decide, by decide⟩

/-- In the opal layout members and states have no bit in common. -/
theorem opal_apart : (∀ i j, opalBits.Apart 0 i 2 j) ∧ ∀ i j, opalBits.Apart 2 i 0 j :=
  ⟨by decide, by decide⟩

/-- What is parsed of each port depends on its own two bits, which are inside the
three words, and what is put together is parsed as it was. -/
structure ParsesFields (m : MemberBits) : Prop where
  inside : ∀ offs ∈ [0, stuOffs m], ∀ i : Fin maxPorts,
    i.val / (16 / m.mbits) < 3 ∧ m.pos offs i + 2 ≤ 16
  member : ∀ (k k' : MvVtuEntry) (i : Fin maxPorts), bit k.vid 12 = bit k'.vid 12 →
    m.SameBits 0 i k.data k'.data →
      (devVtuParse m k).map (·.member i) = (devVtuParse m k').map (·.member i)
  state : ∀ (k k' : MvStuEntry) (i : Fin maxPorts), bit k.vid 12 = bit k'.vid 12 →
    m.SameBits (stuOffs m) i k.data k'.data →
      (devStuParse m k).map (·.state i) = (devStuParse m k').map (·.state i)
  members : ∀ (k : MvVtuEntry) (members : Fin maxPorts → VtuMember), bit k.vid 12 = true →
    (devVtuParse m { k with data := m.pack 0 (fun i => (members i).code) k.data }).map (·.member) =
      some members
  states : ∀ (k : MvStuEntry) (states : Fin maxPorts → StuState), bit k.vid 12 = true →
    (devStuParse m { k with data := m.pack (stuOffs m) (fun i => (states i).code) k.data }).map
      (·.state) = some states

/-- The members of an entry in use. -/
theorem devVtuParse_member {m : MemberBits} {k : MvVtuEntry} (h : bit k.vid 12 = true) :
    (devVtuParse m k).map (·.member) = some fun i => .ofCode (m.code k.data 0 i) := by
  simp [devVtuParse, h]

/-- The states of an entry in use. -/
theorem devStuParse_state {m : MemberBits} {k : MvStuEntry} (h : bit k.vid 12 = true) :
    (devStuParse m k).map (·.state) = some fun i => .ofCode (m.code k.data (stuOffs m) i) := by
  simp [devStuParse, h, stuOffs]

/-- Over a layout the fields are parsed as they are put. -/
theorem Layout.parses {m : MemberBits} (h : Layout m) : ParsesFields m where
  inside offs hoffs i := ⟨m.inside i, h.inside offs hoffs i⟩
  member k k' i hvid hsame := by
    by_cases hused : bit k.vid 12 = true
    · have hcode := m.code_congr hsame
      simp [devVtuParse, hused, hvid ▸ hused, hcode]
    · simp [devVtuParse, hused, hvid ▸ hused]
  state k k' i hvid hsame := by
    by_cases hused : bit k.vid 12 = true
    · have hcode := m.code_congr hsame
      unfold stuOffs at hcode
      simp [devStuParse, hused, hvid ▸ hused, hcode]
    · simp [devStuParse, hused, hvid ▸ hused]
  members k members hused := by
    rw [devVtuParse_member (by exact hused)]
    refine congrArg some (funext fun i => ?_)
    rw [MemberBits.code_pack (h.inside 0 (by simp)) (h.apart 0 (by simp)), VtuMember.ofCode_code]
  states k states hused := by
    rw [devStuParse_state (by exact hused)]
    refine congrArg some (funext fun i => ?_)
    rw [MemberBits.code_pack (h.inside _ (by simp)) (h.apart _ (by simp)), StuState.ofCode_code]

/-- The fields of different ports do not overlap.  In the opal layout those of the
VTU and of the STU do not either: members and states are put into the same words
and both are parsed as they were, and a change of one leaves the others alone. -/
theorem memberFields :
    (∀ m ∈ [opalBits, peridotBits], ParsesFields m) ∧
    (∀ (v : MvVtuEntry) (s : MvStuEntry) (members : Fin maxPorts → VtuMember)
      (states : Fin maxPorts → StuState) (data : Fin 3 → BitVec 16),
      v.data = opalBits.pack 2 (fun i => (states i).code)
        (opalBits.pack 0 (fun i => (members i).code) data) → s.data = v.data →
      bit v.vid 12 = true → bit s.vid 12 = true →
      (devVtuParse opalBits v).map (·.member) = some members ∧
        (devStuParse opalBits s).map (·.state) = some states) ∧
    (∀ (k : MvVtuEntry) (i : Fin maxPorts) (state : StuState),
      (devVtuParse opalBits { k with data := opalBits.put 2 i state.code k.data }).map (·.member) =
        (devVtuParse opalBits k).map (·.member)) ∧
    ∀ (k : MvStuEntry) (i : Fin maxPorts) (member : VtuMember),
      (devStuParse opalBits { k with data := opalBits.put 0 i member.code k.data }).map (·.state) =
        (devStuParse opalBits k).map (·.state) := by
  have hopal := layout_opal
  have hoffs : stuOffs opalBits = 2 := rfl
  have hmember := hopal.inside 0 (by simp)
  have hstate := hopal.inside 2 (by simp [hoffs])
  refine ⟨?_, ?_, ?_, ?_⟩
  · simp only [List.forall_mem_cons]
    exact ⟨hopal.parses, layout_peridot.parses, fun _ h => nomatch h⟩
  · intro v s members states data hv hs hvused hsused
    rw [devVtuParse_member hvused, devStuParse_state hsused, hs, hv, hoffs]
    refine ⟨congrArg some (funext fun i => ?_), congrArg some (funext fun i => ?_)⟩
    · rw [MemberBits.code_pack_of_apart (fun j => opal_apart.2 j i) (hmember i),
        MemberBits.code_pack hmember (hopal.apart 0 (by simp)), VtuMember.ofCode_code]
    · rw [MemberBits.code_pack hstate (hopal.apart 2 (by simp [hoffs])), StuState.ofCode_code]
  · intro k i state
    by_cases hused : bit k.vid 12 = true
    · rw [devVtuParse_member (by exact hused), devVtuParse_member hused]
      refine congrArg some (funext fun j => ?_)
      rw [MemberBits.code_put_of_apart (opal_apart.2 i j) (hmember j)]
    · simp [devVtuParse, hused]
  · intro k i member
    by_cases hused : bit k.vid 12 = true
    · rw [devStuParse_state (by exact hused), devStuParse_state hused, hoffs]
      refine congrArg some (funext fun j => ?_)
      rw [MemberBits.code_put_of_apart (opal_apart.1 i j) (hstate j)]
    · simp [devStuParse, hused]

/-- Tagged members and forwarding states in the same words. -/
theorem memberFields_tagged :
    let data := opalBits.pack 2 (fun _ => StuState.forwarding.code)
      (opalBits.pack 0 (fun _ => VtuMember.tagged.code) fun _ => 0)
    (devVtuParse opalBits ⟨1, 1, 0x1001, data⟩).map (·.member) = some (fun _ => .tagged) ∧
      (devStuParse opalBits ⟨1, 0x1000, data⟩).map (·.state) = some fun _ => .forwarding :=
  memberFields.2.1 ⟨1, 1, 0x1001, _⟩ ⟨1, 0x1000, _⟩ (fun _ => .tagged) (fun _ => .forwarding)
    (fun _ => 0) rfl rfl (by decide) (by decide)

end MdioTools.Mvls
