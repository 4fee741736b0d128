import Mathlib.Data.List.Sort
import Mathlib.Order.Basic
import Mathlib.Tactic.Common

/-!
# One pass of a sort that moves elements back

One pass over a list: an element whose successor has a smaller key is moved back,
in front of the first element whose key is not smaller, and the pass goes on with
the successor; an element whose successor is not smaller stays, and the pass goes
on behind it.  A pass ends, and it keeps the elements, but it does not sort every
list.

Main results:

- Definition {lit}`sortPass`: the pass; it ends because every move puts pairs of
  elements in order.
- Theorem {lit}`sortPass_perm`: the pass keeps the elements.
- Theorem {lit}`sortPass_sorted_iff`: the lists that one pass sorts.
-/

namespace MdioTools.Library

variable {α β : Type*} [LinearOrder β] (key : α → β)

/-- Move an element in front of the first whose key is not smaller. -/
def moveBack (a : α) (l : List α) : List α :=
  l.orderedInsert (fun a b => key a ≤ key b) a

theorem moveBack_perm (a : α) (l : List α) : (moveBack key a l).Perm (a :: l) :=
  l.perm_orderedInsert _ a

theorem moveBack_cons_of_le {a c : α} (h : key a ≤ key c) (l : List α) :
    moveBack key a (c :: l) = a :: c :: l :=
  List.orderedInsert_cons_of_le _ l h

theorem moveBack_cons_of_lt {a c : α} (h : key c < key a) (l : List α) :
    moveBack key a (c :: l) = c :: moveBack key a l :=
  List.orderedInsert_of_not_le _ l (not_le.mpr h)

/-- The place is behind the elements in front that have a smaller key. -/
theorem moveBack_eq (a : α) (l : List α) :
    moveBack key a l =
      l.takeWhile (fun b => key b < key a) ++ a :: l.dropWhile (fun b => key b < key a) := by
  have hsplit := List.orderedInsert_eq_take_drop (fun a b => key a ≤ key b) a l
  simp only [not_le] at hsplit
  exact hsplit

theorem moveBack_congr {key key' : α → β} {a : α} {l : List α} (ha : key a = key' a)
    (h : ∀ c ∈ l, key c = key' c) : moveBack key a l = moveBack key' a l := by
  induction l with
  | nil => rfl
  | cons c l ih =>
      have hc := h c List.mem_cons_self
      rcases le_or_gt (key a) (key c) with hle | hlt
      · rw [moveBack_cons_of_le key hle, moveBack_cons_of_le key' (by rwa [← ha, ← hc])]
      · rw [moveBack_cons_of_lt key hlt, moveBack_cons_of_lt key' (by rwa [← ha, ← hc]),
          ih fun c hc => h c (List.mem_cons_of_mem _ hc)]

/-! ## The pass -/

/-- The number of pairs of elements that are out of order. -/
def inversions : List α → Nat
  | [] => 0
  | a :: l => l.countP (fun b => key b < key a) + inversions l

/-- Moving an element back makes no new pair that is out of order. -/
theorem inversions_moveBack_le (a : α) (l : List α) :
    inversions key (moveBack key a l) ≤ inversions key (a :: l) := by
  induction l with
  | nil => exact le_refl _
  | cons c l ih =>
      rcases le_or_gt (key a) (key c) with hle | hlt
      · rw [moveBack_cons_of_le key hle]
      · rw [moveBack_cons_of_lt key hlt]
        have hcount : (moveBack key a l).countP (fun b => key b < key c) =
            l.countP (fun b => key b < key c) := by
          rw [(moveBack_perm key a l).countP_eq, List.countP_cons_of_neg]
          simpa using le_of_lt hlt
        simp only [inversions, hcount, List.countP_cons_of_pos (p := fun b => key b < key a)
          (by simpa using hlt)] at ih ⊢
        omega

/-- A move puts the element and its successor in order. -/
theorem inversions_move_lt {a b : α} (h : key b < key a) (l : List α) :
    inversions key (b :: moveBack key a l) < inversions key (a :: b :: l) := by
  have hmove := inversions_moveBack_le key a l
  have hcount : (moveBack key a l).countP (fun c => key c < key b) =
      l.countP (fun c => key c < key b) := by
    rw [(moveBack_perm key a l).countP_eq, List.countP_cons_of_neg]
    simpa using le_of_lt h
  simp only [inversions, hcount, List.countP_cons_of_pos (p := fun c => key c < key a)
    (by simpa using h)] at hmove ⊢
  omega

/-- One pass over a list. -/
def sortPass : List α → List α
  | [] => []
  | [a] => [a]
  | a :: b :: l =>
      if key b < key a then sortPass (b :: moveBack key a l) else a :: sortPass (b :: l)
termination_by l => inversions key l + l.length
decreasing_by
  · rename_i h
    have hlt := inversions_move_lt key h l
    have hlen := (moveBack_perm key a l).length_eq
    simp only [List.length_cons] at hlen ⊢
    omega
  · simp only [inversions, List.length_cons]
    omega

/-- The pass keeps the elements. -/
theorem sortPass_perm (l : List α) : (sortPass key l).Perm l := by
  induction l using sortPass.induct key with
  | case1 => rw [sortPass]
  | case2 a => rw [sortPass]
  | case3 a b l hlt ih =>
      rw [sortPass, if_pos hlt]
      exact ih.trans (((moveBack_perm key a l).cons b).trans (List.Perm.swap a b l))
  | case4 a b l hle ih =>
      rw [sortPass, if_neg hle]
      exact ih.cons a

/-- Only the keys of the elements matter. -/
theorem sortPass_congr {key key' : α → β} {l : List α} (h : ∀ a ∈ l, key a = key' a) :
    sortPass key l = sortPass key' l := by
  induction l using sortPass.induct key with
  | case1 => rw [sortPass, sortPass]
  | case2 a => rw [sortPass, sortPass]
  | case3 a b l hlt ih =>
      have hmove : moveBack key a l = moveBack key' a l :=
        moveBack_congr (h a List.mem_cons_self) fun c hc =>
          h c (List.mem_cons_of_mem _ (List.mem_cons_of_mem _ hc))
      have hkeep : ∀ c ∈ b :: moveBack key a l, key c = key' c := fun c hc =>
        h c ((((moveBack_perm key a l).cons b).trans (List.Perm.swap a b l)).mem_iff.mp hc)
      have hlt' : key' b < key' a := by
        rwa [← h a List.mem_cons_self, ← h b (List.mem_cons_of_mem _ List.mem_cons_self)]
      rw [sortPass, if_pos hlt, ih hkeep, sortPass, if_pos hlt', hmove]
  | case4 a b l hle ih =>
      have hle' : ¬key' b < key' a := by
        rwa [← h a List.mem_cons_self, ← h b (List.mem_cons_of_mem _ List.mem_cons_self)]
      rw [sortPass, if_neg hle, ih fun c hc => h c (List.mem_cons_of_mem _ hc), sortPass,
        if_neg hle']

/-! ## The lists that one pass sorts -/

/-- The keys do not decrease. -/
def SortedBy (l : List α) : Prop :=
  l.Pairwise fun a b => key a ≤ key b

/-- Behind an element whose key is not smaller than that of `a`, no key is. -/
def StaysAbove (a : α) (l : List α) : Prop :=
  l.Pairwise fun b c => key a ≤ key b → key a ≤ key c

/-- No element is followed by one with a key not smaller and, behind that, by
one with a smaller key. -/
def OnePass (l : List α) : Prop :=
  ∀ a b c, [a, b, c].Sublist l → key a ≤ key b → key a ≤ key c

theorem onePass_cons_iff (a : α) (l : List α) :
    OnePass key (a :: l) ↔ StaysAbove key a l ∧ OnePass key l := by
  constructor
  · intro h
    refine ⟨?_, fun b c d hsub => h b c d (hsub.cons a)⟩
    exact List.pairwise_iff_forall_sublist.mpr fun hsub => h a _ _ (hsub.cons_cons a)
  · rintro ⟨habove, hone⟩ b c d hsub
    cases hsub with
    | cons _ hsub => exact hone b c d hsub
    | cons_cons _ hsub => exact List.pairwise_iff_forall_sublist.mp habove hsub

theorem staysAbove_cons_of_lt {a b : α} (h : key b < key a) (l : List α) :
    StaysAbove key a (b :: l) ↔ StaysAbove key a l := by
  unfold StaysAbove
  rw [List.pairwise_cons, and_iff_right]
  exact fun c _ hle => absurd hle (not_le.mpr h)

/-- Where the head is not smaller, no element is. -/
theorem staysAbove_cons_of_le {a b : α} (h : key a ≤ key b) (l : List α) :
    StaysAbove key a (b :: l) ↔ ∀ c ∈ b :: l, key a ≤ key c := by
  constructor
  · intro habove c hc
    rcases List.mem_cons.mp hc with rfl | hc
    · exact h
    · exact (List.pairwise_cons.mp habove).1 c hc h
  · intro hall
    exact List.pairwise_iff_forall_sublist.mpr fun hsub _ => hall _ (hsub.subset (by simp))

/-- To a smaller key it makes no difference where a greater one is moved. -/
theorem staysAbove_moveBack_iff {a c : α} (h : key c < key a) (l : List α) :
    StaysAbove key c (moveBack key a l) ↔ StaysAbove key c l := by
  constructor
  · exact fun habove => List.Pairwise.sublist (List.sublist_orderedInsert a l) habove
  · intro habove
    induction l with
    | nil => exact List.pairwise_singleton _ a
    | cons e l ih =>
        obtain ⟨hhead, htail⟩ := List.pairwise_cons.mp habove
        rcases le_or_gt (key a) (key e) with hle | hlt
        · rw [moveBack_cons_of_le key hle]
          refine List.pairwise_cons.mpr ⟨fun x hx _ => ?_, habove⟩
          exact (staysAbove_cons_of_le key (h.le.trans hle) l).mp habove x hx
        · rw [moveBack_cons_of_lt key hlt]
          refine List.pairwise_cons.mpr ⟨fun x hx hce => ?_, ih htail⟩
          rcases List.mem_cons.mp ((moveBack_perm key a l).mem_iff.mp hx) with rfl | hx
          · exact h.le
          · exact hhead x hx hce

/-- Moving the head back does not change whether one pass sorts the list. -/
theorem onePass_moveBack_iff (a : α) (l : List α) :
    OnePass key (moveBack key a l) ↔ OnePass key (a :: l) := by
  induction l with
  | nil => exact Iff.rfl
  | cons c l ih =>
      rcases le_or_gt (key a) (key c) with hle | hlt
      · rw [moveBack_cons_of_le key hle]
      · rw [moveBack_cons_of_lt key hlt]
        calc OnePass key (c :: moveBack key a l)
            ↔ StaysAbove key c l ∧ StaysAbove key a l ∧ OnePass key l := by
              rw [onePass_cons_iff, staysAbove_moveBack_iff key hlt, ih, onePass_cons_iff]
          _ ↔ OnePass key (a :: c :: l) := by
              rw [onePass_cons_iff, staysAbove_cons_of_lt key hlt, onePass_cons_iff]
              exact and_left_comm

/-- One pass sorts a list exactly when no element is followed by one with a key
not smaller and, behind that, by one with a smaller key. -/
theorem sortPass_sorted_iff (l : List α) : SortedBy key (sortPass key l) ↔ OnePass key l := by
  induction l using sortPass.induct key with
  | case1 =>
      rw [sortPass]
      exact iff_of_true List.Pairwise.nil fun a b c hsub => by cases hsub
  | case2 a =>
      rw [sortPass]
      refine iff_of_true (List.pairwise_singleton _ a) fun b c d hsub => ?_
      have hlen := hsub.length_le
      simp at hlen
  | case3 a b l hlt ih =>
      rw [sortPass, if_pos hlt, ih]
      calc OnePass key (b :: moveBack key a l)
          ↔ StaysAbove key b l ∧ StaysAbove key a l ∧ OnePass key l := by
            rw [onePass_cons_iff, staysAbove_moveBack_iff key hlt, onePass_moveBack_iff,
              onePass_cons_iff]
        _ ↔ OnePass key (a :: b :: l) := by
            rw [onePass_cons_iff, staysAbove_cons_of_lt key hlt, onePass_cons_iff]
            exact and_left_comm
  | case4 a b l hle ih =>
      have hmem : ∀ x, x ∈ sortPass key (b :: l) ↔ x ∈ b :: l := fun x =>
        (sortPass_perm key (b :: l)).mem_iff
      rw [sortPass, if_neg hle, onePass_cons_iff, ← ih,
        staysAbove_cons_of_le key (not_lt.mp hle)]
      unfold SortedBy
      rw [List.pairwise_cons]
      simp only [hmem]

end MdioTools.Library
