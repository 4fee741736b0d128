import MdioTools.Library.Machine
import Mathlib.Data.List.Range
import Mathlib.Tactic.Common

/-!
# Inclusive counting loops on machine words

The loop {lit}`for (i = start; i <= stop; i++)` over words of `w` bits.  The
condition compares words and the increment wraps, so the loop runs over the words
from the start to the end, and never ends where the end is the largest word.

Main results:

- Definition {lit}`countLoop`: the loop as a machine.
- Definition {lit}`upTo`: the words it runs over.
- Theorems {lit}`countLoop_halts` and {lit}`countLoop_not_halts`: the result of
  the loop, and the end that it never reaches.
-/

namespace MdioTools.Library

variable {w : Nat} {σ : Type*}

/-- The loop around a body, with the counter and the data of the body as its
state. -/
def countLoop (body : BitVec w → σ → σ) (stop : BitVec w) : Machine (BitVec w × σ) σ where
  step s := if s.1 ≤ stop then .inl (s.1 + 1, body s.1 s.2) else .inr s.2

/-- The words from a start to an end. -/
def upTo (start stop : BitVec w) : List (BitVec w) :=
  (List.range (stop.toNat + 1 - start.toNat)).map fun i => start + BitVec.ofNat w i

variable {body : BitVec w → σ → σ} {start stop : BitVec w} {s : σ}

theorem countLoop_step_of_le (h : start ≤ stop) :
    (countLoop body stop).step (start, s) = .inl (start + 1, body start s) :=
  if_pos h

theorem countLoop_step_of_lt (h : ¬start ≤ stop) :
    (countLoop body stop).step (start, s) = .inr s :=
  if_neg h

/-- Below the largest word the increment does not wrap. -/
theorem toNat_succ_of_le (h : start ≤ stop) (hstop : stop ≠ BitVec.allOnes w) :
    (start + 1).toNat = start.toNat + 1 := by
  have hlast : stop.toNat ≠ 2 ^ w - 1 := fun heq =>
    hstop (BitVec.eq_of_toNat_eq (by rw [heq, BitVec.toNat_allOnes]))
  have hle : start.toNat ≤ stop.toNat := h
  have hlt := stop.isLt
  have hpos : 0 < w := by
    by_contra hzero
    obtain rfl : w = 0 := by omega
    exact hstop (BitVec.eq_of_getLsbD_eq (by simp))
  have hone : (1 : BitVec w).toNat = 1 := BitVec.toNat_one hpos
  rw [BitVec.toNat_add, hone, Nat.mod_eq_of_lt (by omega)]

theorem upTo_of_lt (h : ¬start ≤ stop) : upTo start stop = [] := by
  have hlt : ¬start.toNat ≤ stop.toNat := h
  rw [upTo, show stop.toNat + 1 - start.toNat = 0 by omega]
  rfl

/-- The first word, and those from the next one on. -/
theorem upTo_cons (h : start ≤ stop) (hstop : stop ≠ BitVec.allOnes w) :
    upTo start stop = start :: upTo (start + 1) stop := by
  have hle : start.toNat ≤ stop.toNat := h
  have hnext := toNat_succ_of_le h hstop
  rw [upTo, upTo, hnext, show stop.toNat + 1 - start.toNat =
    (stop.toNat + 1 - (start.toNat + 1)) + 1 by omega, List.range_succ_eq_map, List.map_cons,
    List.map_map]
  congr 1
  · simp
  · refine List.map_congr_left fun i _ => ?_
    simp only [Function.comp_apply, Nat.succ_eq_add_one]
    rw [BitVec.add_assoc, BitVec.add_comm 1, BitVec.ofNat_add]
    rfl

/-- The loop ends with the body applied to the words from the start to the end,
in order. -/
theorem countLoop_halts (body : BitVec w → σ → σ) (hstop : stop ≠ BitVec.allOnes w)
    (start : BitVec w) (s : σ) :
    (countLoop body stop).Halts (start, s) ((upTo start stop).foldl (fun s i => body i s) s) := by
  induction hn : stop.toNat + 1 - start.toNat generalizing start s with
  | zero =>
      have h : ¬start ≤ stop := fun h => by
        have hle : start.toNat ≤ stop.toNat := h
        omega
      rw [upTo_of_lt h]
      exact Machine.Halts.single (countLoop_step_of_lt h)
  | succ n ih =>
      have h : start ≤ stop := by
        rw [BitVec.le_def]
        omega
      have hnext := toNat_succ_of_le h hstop
      rw [upTo_cons h hstop, List.foldl_cons]
      exact (Machine.Reaches.single (countLoop_step_of_le h)).halts (ih _ _ (by omega))

/-- With the largest word as the end, the loop does not end. -/
theorem countLoop_not_halts (body : BitVec w → σ → σ) (start : BitVec w) (s r : σ) :
    ¬(countLoop body (BitVec.allOnes w)).Halts (start, s) r := by
  have hle : ∀ i : BitVec w, i ≤ BitVec.allOnes w := fun i => by
    have hlt := i.isLt
    rw [BitVec.le_def, BitVec.toNat_allOnes]
    omega
  refine fun hhalts => Machine.Halts.invariant (I := fun _ => True) (Q := fun _ => False)
    (fun _ _ _ _ => trivial) (fun s r _ hstep => ?_) trivial hhalts
  rw [show (countLoop body (BitVec.allOnes w)).step s = .inl _ from if_pos (hle s.1)] at hstep
  cases hstep

/-- The words of the loop, as numbers. -/
theorem map_toNat_upTo (start stop : BitVec w) :
    (upTo start stop).map BitVec.toNat =
      List.range' start.toNat (stop.toNat + 1 - start.toNat) := by
  rw [upTo, List.map_map, List.range'_eq_map_range]
  refine List.map_congr_left fun i hi => ?_
  have hlt := List.mem_range.mp hi
  have hstop := stop.isLt
  rw [Function.comp_apply, BitVec.toNat_add, BitVec.toNat_ofNat, Nat.add_mod_mod,
    Nat.mod_eq_of_lt (by omega)]

theorem upTo_length (start stop : BitVec w) :
    (upTo start stop).length = stop.toNat + 1 - start.toNat := by
  rw [upTo, List.length_map, List.length_range]

end MdioTools.Library
