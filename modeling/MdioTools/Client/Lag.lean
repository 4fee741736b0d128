import Mathlib.Data.List.Basic
import MdioTools.Client.Mvls
import MdioTools.Library.Printf

/-!
# The listing of the `lag` command

The callback of the command gets the sixteen entries of the trunk mapping table
and the eight of the trunk mask table, and prints the ports that each has in its
low eleven bits.  A trunk without ports gets no line.

Main results:

- Definition {lit}`mvlsLagCb`: the callback.
- Theorem {lit}`mvlsLagCb_listing`: what it prints for words that carry the
  entries of two tables.
-/

namespace MdioTools.Client

open Library

/-! ## The callback -/

/-- `mvls_print_portvec`. -/
def mvlsPrintPortvec (portvec : BitVec 16) : CStr :=
  (List.range 11).flatMap fun i =>
    if portvec.getLsbD i then "  ".toList ++ hex i else "  .".toList

/-- A line for an entry of a table: `"%4d"`, its ports, and the end of the
line. -/
def lagLine (num : Nat) (portvec : BitVec 16) : CStr :=
  padLeft 4 ' ' (dec num) ++ mvlsPrintPortvec portvec ++ "\n".toList

/-- The titles of the two tables. -/
def lagTitle : CStr :=
  "\x1b[7m LAG  0  1  2  3  4  5  6  7  8  9  a\x1b[0m\n".toList

def maskTitle : CStr :=
  "\x1b[7mMASK  0  1  2  3  4  5  6  7  8  9  a\x1b[0m\n".toList

/-- `mvls_lag_cb`: its return value, and what it prints. -/
def mvlsLagCb (data : List (BitVec 32)) (err : Int) : Int × CStr :=
  if data.length ≠ 16 + 8 then (1, [])
  else
    let lags := (List.range 16).flatMap fun lag =>
      if data.getD lag 0 &&& 0x7ff = 0 then [] else lagLine lag ((data.getD lag 0).setWidth 16)
    let masks := (List.range 8).flatMap fun mask =>
      lagLine mask ((data.getD (16 + mask) 0).setWidth 16)
    (err, lagTitle ++ lags ++ "\n".toList ++ maskTitle ++ masks)

/-! ## What it prints -/

/-- The ports of an entry. -/
def entryPorts (entry : BitVec 11) : CStr :=
  (List.range 11).flatMap fun i => if entry.getLsbD i then "  ".toList ++ hex i else "  .".toList

/-- A line for an entry. -/
def entryLine (num : Nat) (entry : BitVec 11) : CStr :=
  padLeft 4 ' ' (dec num) ++ entryPorts entry ++ "\n".toList

/-- The listing of a trunk mapping table, less its entries without ports, and of
a trunk mask table. -/
def lagListing (lags masks : Nat → BitVec 11) : CStr :=
  lagTitle ++ ((List.range 16).flatMap fun lag =>
    if lags lag = 0 then [] else entryLine lag (lags lag)) ++ "\n".toList ++
    maskTitle ++ (List.range 8).flatMap fun mask => entryLine mask (masks mask)

/-- Only the low eleven bits of a word are looked at. -/
theorem mvlsPrintPortvec_low (word : BitVec 32) :
    mvlsPrintPortvec (word.setWidth 16) = entryPorts (word.setWidth 11) := by
  apply List.flatMap_congr
  intro i hi
  have hlt : i < 11 := List.mem_range.mp hi
  have hbit : (word.setWidth 16).getLsbD i = (word.setWidth 11).getLsbD i := by
    rw [BitVec.getLsbD_setWidth, BitVec.getLsbD_setWidth]
    simp [hlt, show i < 16 by omega]
  rw [hbit]

theorem lagLine_low (num : Nat) (word : BitVec 32) :
    lagLine num (word.setWidth 16) = entryLine num (word.setWidth 11) := by
  rw [lagLine, mvlsPrintPortvec_low, entryLine]

/-- A word has no ports if its entry has none. -/
theorem low_eq_zero_iff (word : BitVec 32) :
    word &&& 0x7ff = 0 ↔ word.setWidth 11 = (0 : BitVec 11) := by
  have hmask : word &&& 0x7ff = (word.setWidth 11 : BitVec 11).setWidth 32 := by
    apply BitVec.eq_of_toNat_eq
    have hand : word.toNat &&& 2047 = word.toNat % 2048 :=
      Nat.and_two_pow_sub_one_eq_mod word.toNat 11
    simp only [BitVec.toNat_and, BitVec.toNat_setWidth, BitVec.reduceToNat]
    omega
  rw [hmask]
  constructor
  · intro h
    have hback := congrArg (BitVec.setWidth 11) h
    rwa [BitVec.setWidth_setWidth_of_le _ (by omega), BitVec.setWidth_eq] at hback
  · intro h
    rw [h]
    rfl

/-- For words whose low bits are the entries of two tables, the callback prints
the tables. -/
theorem mvlsLagCb_listing {data : List (BitVec 32)} {lags masks : Nat → BitVec 11} (err : Int)
    (h : data.map (·.setWidth 11) = (List.range 16).map lags ++ (List.range 8).map masks) :
    mvlsLagCb data err = (err, lagListing lags masks) := by
  have hlen : data.length = 24 := by
    have hcount := congrArg List.length h
    simpa using hcount
  have hget : ∀ i, i < 24 → (data.getD i 0).setWidth 11 =
      ((List.range 16).map lags ++ (List.range 8).map masks).getD i 0 := by
    intro i hi
    rw [← h, List.getD_eq_getElem?_getD, List.getD_eq_getElem?_getD, List.getElem?_map,
      List.getElem?_eq_getElem (by omega)]
    rfl
  have hlag : ∀ lag ∈ List.range 16, (data.getD lag 0).setWidth 11 = lags lag := by
    intro lag hmem
    have hlt := List.mem_range.mp hmem
    rw [hget lag (by omega), List.getD_eq_getElem?_getD,
      List.getElem?_append_left (by simpa using hlt)]
    simp [hlt]
  have hmask : ∀ mask ∈ List.range 8, (data.getD (16 + mask) 0).setWidth 11 = masks mask := by
    intro mask hmem
    have hlt := List.mem_range.mp hmem
    rw [hget (16 + mask) (by omega), List.getD_eq_getElem?_getD,
      List.getElem?_append_right (by simp)]
    simp [hlt]
  have hlags : ((List.range 16).flatMap fun lag => if data.getD lag 0 &&& 0x7ff = 0 then []
        else lagLine lag ((data.getD lag 0).setWidth 16)) =
      (List.range 16).flatMap fun lag => if lags lag = 0 then [] else entryLine lag (lags lag) := by
    apply List.flatMap_congr
    intro lag hmem
    rw [lagLine_low, hlag lag hmem]
    exact if_congr ((low_eq_zero_iff _).trans (by rw [hlag lag hmem])) rfl rfl
  have hmasks : ((List.range 8).flatMap fun mask =>
        lagLine mask ((data.getD (16 + mask) 0).setWidth 16)) =
      (List.range 8).flatMap fun mask => entryLine mask (masks mask) := by
    apply List.flatMap_congr
    intro mask hmem
    rw [lagLine_low, hmask mask hmem]
  rw [mvlsLagCb, if_neg (by omega), lagListing, hlags, hmasks]

end MdioTools.Client
