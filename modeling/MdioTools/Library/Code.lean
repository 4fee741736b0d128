import MdioTools.Library.Machine

/-!
# Relocatable code

A program is a list of instructions, and a state has an integer program counter.
An instruction moves the counter by a displacement or ends the run; outside the
program the run stops.  Jumps are relative, so what a fragment of a program does
can be said without where it stands: this module has the rules by which the
fragments of a program are put together.

Main results:

- Theorems {lit}`Exec.append`, {lit}`Exec.single` and {lit}`Exec.skip`: a
  fragment runs instruction by instruction, over a part that is jumped over.
- Theorem {lit}`Exec.loop`: a fragment that ends with a jump back to its start
  runs once more.
- Theorem {lit}`Exec.halts`: a fragment as a whole program.
- Theorems {lit}`Ends.append`, {lit}`Exec.ends` and {lit}`Ends.loop`: a fragment in
  which the run comes to an end.
-/

namespace MdioTools.Library

/-- A state: the program counter and the data. -/
structure CodeState (D : Type*) where
  pc : Int
  data : D

/-- The meaning of instructions `I` on data `D` with results `R`: the effect of
an instruction is a displacement and new data, or the end of the run; `stop` is
the end of a run that leaves the program. -/
structure CodeSem (I D R : Type*) where
  exec : I → D → (Int × D) ⊕ R
  stop : D → R

variable {I D R : Type*}

/-- The instruction at an integer index, if the index is inside the program. -/
def fetch (prog : List I) (pc : Int) : Option I :=
  if 0 ≤ pc then prog[pc.toNat]? else none

/-- One step of a program. -/
def codeStep (sem : CodeSem I D R) (prog : List I) (s : CodeState D) : CodeState D ⊕ R :=
  match fetch prog s.pc with
  | none => .inr (sem.stop s.data)
  | some i =>
      match sem.exec i s.data with
      | .inl (disp, d) => .inl ⟨s.pc + disp, d⟩
      | .inr r => .inr r

/-- The machine that runs a program. -/
def code (sem : CodeSem I D R) (prog : List I) : Machine (CodeState D) R where
  step := codeStep sem prog

theorem fetch_eq_none_iff (prog : List I) (pc : Int) :
    fetch prog pc = none ↔ ¬(0 ≤ pc ∧ pc < prog.length) := by
  unfold fetch
  split_ifs with hnonneg
  · rw [List.getElem?_eq_none_iff]
    omega
  · simp [hnonneg]

/-- Inside a fragment the program has the fragment's instructions. -/
theorem fetch_fragment (pre post : List I) {frag : List I} {k : Nat} {i : I}
    (h : frag[k]? = some i) : fetch (pre ++ frag ++ post) (pre.length + k) = some i := by
  have hlt : k < frag.length := (List.getElem?_eq_some_iff.mp h).1
  have hidx : ((pre.length : Int) + k).toNat = pre.length + k := by omega
  rw [fetch, if_pos (by omega), hidx, List.getElem?_append_left (by simp; omega),
    List.getElem?_append_right (by omega), Nat.add_sub_cancel_left, h]

/-! ## Runs inside a fragment -/

/-- Wherever the fragment stands, the program runs from its index `i` to its
index `j`. -/
def Moves (sem : CodeSem I D R) (frag : List I) (i : Int) (d : D) (j : Int) (d' : D) : Prop :=
  ∀ pre post : List I, (code sem (pre ++ frag ++ post)).Reaches ⟨pre.length + i, d⟩
    ⟨pre.length + j, d'⟩

/-- Wherever the fragment stands, it runs from its start to its end. -/
def Exec (sem : CodeSem I D R) (frag : List I) (d d' : D) : Prop :=
  Moves sem frag 0 d frag.length d'

variable {sem : CodeSem I D R} {frag frag' : List I} {d d' d'' : D}

theorem Moves.refl (i : Int) : Moves sem frag i d i d :=
  fun _ _ => Machine.Reaches.refl _

theorem Moves.trans {i j k : Int} (h : Moves sem frag i d j d') (h' : Moves sem frag j d' k d'') :
    Moves sem frag i d k d'' :=
  fun pre post => (h pre post).trans (h' pre post)

/-- One instruction of the fragment. -/
theorem Moves.step {k : Nat} {i : I} {disp : Int} (hk : frag[k]? = some i)
    (hexec : sem.exec i d = .inl (disp, d')) : Moves sem frag k d (k + disp) d' := by
  intro pre post
  refine Machine.Reaches.single ?_
  have hfetch := fetch_fragment pre post hk
  simp only [code, codeStep, hfetch, hexec, Int.add_assoc]

/-- A run in a part of a fragment is one in the fragment. -/
theorem Moves.extend {i j : Int} (h : Moves sem frag i d j d') (before after : List I) :
    Moves sem (before ++ frag ++ after) (before.length + i) d (before.length + j) d' := by
  intro pre post
  have hrun := h (pre ++ before) (after ++ post)
  simp only [List.length_append, Int.natCast_add, Int.add_assoc, List.append_assoc] at hrun ⊢
  exact hrun

theorem Exec.nil : Exec sem [] d d :=
  Moves.refl 0

/-- Fragments run one after the other. -/
theorem Exec.append (h : Exec sem frag d d') (h' : Exec sem frag' d' d'') :
    Exec sem (frag ++ frag') d d'' := by
  have hleft := h.extend [] frag'
  have hright := h'.extend frag []
  simp only [List.nil_append, List.append_nil, List.length_nil, Int.natCast_zero,
    Int.add_zero, Int.zero_add] at hleft hright
  unfold Exec
  rw [List.length_append, Int.natCast_add]
  exact hleft.trans hright

/-- An instruction that goes on to the next one. -/
theorem Exec.single {i : I} (h : sem.exec i d = .inl (1, d')) : Exec sem [i] d d' :=
  Moves.step (k := 0) rfl h

/-- A jump over the rest of the fragment. -/
theorem Exec.skip {i : I} {skipped : List I}
    (h : sem.exec i d = .inl (skipped.length + 1, d')) : Exec sem (i :: skipped) d d' := by
  have hfirst : (i :: skipped)[0]? = some i := rfl
  have hmove := Moves.step hfirst h
  simpa [Exec] using hmove

/-- A fragment that jumps back to its start runs again. -/
theorem Exec.loop {i : I} {d₁ d₂ : D} (hbody : Exec sem frag d d₁)
    (hjump : sem.exec i d₁ = .inl (-frag.length, d₂)) (hagain : Exec sem (frag ++ [i]) d₂ d') :
    Exec sem (frag ++ [i]) d d' := by
  have hleft := hbody.extend [] [i]
  simp only [List.nil_append, List.length_nil, Int.natCast_zero, Int.zero_add] at hleft
  have hlast : (frag ++ [i])[frag.length]? = some i := by simp
  have hback := Moves.step hlast hjump
  rw [Int.add_right_neg] at hback
  exact (hleft.trans hback).trans hagain

/-- A fragment as a whole program stops at its end. -/
theorem Exec.halts (h : Exec sem frag d d') : (code sem frag).Halts ⟨0, d⟩ (sem.stop d') := by
  have hrun := h [] []
  simp only [List.nil_append, List.append_nil, List.length_nil, Int.natCast_zero,
    Int.zero_add] at hrun
  refine hrun.halts (Machine.Halts.single ?_)
  have hout : fetch frag (frag.length : Int) = none := by
    rw [fetch_eq_none_iff]
    omega
  simp only [code, codeStep, hout]

/-! ## Runs that end inside a fragment -/

/-- Wherever the fragment stands, the run ends in it with a result. -/
def Ends (sem : CodeSem I D R) (frag : List I) (d : D) (r : R) : Prop :=
  ∀ pre post : List I, (code sem (pre ++ frag ++ post)).Halts ⟨pre.length, d⟩ r

variable {r : R}

/-- An instruction that ends the run. -/
theorem Ends.single {i : I} (h : sem.exec i d = .inr r) : Ends sem [i] d r := by
  intro pre post
  have hfetch := fetch_fragment pre post (show [i][0]? = some i from rfl)
  simp only [Int.natCast_zero, Int.add_zero] at hfetch
  exact Machine.Halts.single (by simp only [code, codeStep, hfetch, h])

/-- What comes behind is not run. -/
theorem Ends.append (h : Ends sem frag d r) (frag' : List I) : Ends sem (frag ++ frag') d r := by
  intro pre post
  have hends := h pre (frag' ++ post)
  rw [← List.append_assoc, List.append_assoc pre] at hends
  exact hends

/-- A fragment runs to its end, and the run ends in the next one. -/
theorem Exec.ends (h : Exec sem frag d d') (h' : Ends sem frag' d' r) :
    Ends sem (frag ++ frag') d r := by
  intro pre post
  have hrun := h pre (frag' ++ post)
  have hends := h' (pre ++ frag) post
  simp only [Int.add_zero, List.append_assoc, List.length_append, Int.natCast_add] at hrun hends ⊢
  exact hrun.halts hends

/-- A run that jumps back ends in one of the later rounds. -/
theorem Ends.loop {i : I} {d₁ d₂ : D} (hbody : Exec sem frag d d₁)
    (hjump : sem.exec i d₁ = .inl (-frag.length, d₂)) (hagain : Ends sem (frag ++ [i]) d₂ r) :
    Ends sem (frag ++ [i]) d r := by
  intro pre post
  have hleft := hbody.extend [] [i] pre post
  have hlast : (frag ++ [i])[frag.length]? = some i := by simp
  have hback := Moves.step hlast hjump pre post
  have hends := hagain pre post
  simp only [List.nil_append, List.length_nil, Int.natCast_zero, Int.zero_add, Int.add_right_neg,
    Int.add_zero] at hleft hback
  exact (hleft.trans hback).halts hends

/-- A fragment as a whole program in which the run ends. -/
theorem Ends.halts (h : Ends sem frag d r) : (code sem frag).Halts ⟨0, d⟩ r := by
  have hends := h [] []
  simp only [List.nil_append, List.append_nil, List.length_nil, Int.natCast_zero] at hends
  exact hends

end MdioTools.Library
