import Mathlib.Algebra.Order.Ring.Int
import Mathlib.Data.List.TakeWhile
import Mathlib.Tactic.Common

/-!
# C strings

The string functions of the C library that parse a command line: the scan of an
unsigned number in base 8, 10 or 16 with its end pointer, and the split of a
string at a delimiter.  A string is the list of its characters without the
terminator; {lit}`long` is 64 bits wide.

Main results:

- Theorem {lit}`strtoull_append`: the end pointer points into the string, and
  the characters in front of it are white space, a sign, or digits and letters.
- Theorem {lit}`strtok_eq_some_iff`: the tokens of a string.
-/

namespace MdioTools.Library

/-- A C string without its terminator. -/
abbrev CStr : Type :=
  List Char

/-- `isspace` in the C locale. -/
def isSpace (c : Char) : Bool :=
  c = ' ' || (9 ≤ c.toNat && c.toNat ≤ 13)

/-- The value of a digit or letter. -/
def digitVal (c : Char) : Option Nat :=
  if 48 ≤ c.toNat ∧ c.toNat ≤ 57 then some (c.toNat - 48)
  else if 97 ≤ c.toNat ∧ c.toNat ≤ 122 then some (c.toNat - 87)
  else if 65 ≤ c.toNat ∧ c.toNat ≤ 90 then some (c.toNat - 55)
  else none

/-- The digits in front of a string, and the rest. -/
def scanDigits (base : Nat) : CStr → List Nat × CStr
  | [] => ([], [])
  | c :: s =>
      match digitVal c with
      | some d =>
          if d < base then
            let r := scanDigits base s
            (d :: r.1, r.2)
          else ([], c :: s)
      | none => ([], c :: s)

/-- The number written by a list of digits. -/
def ofDigits (base : Nat) (ds : List Nat) : Nat :=
  ds.foldl (fun n d => base * n + d) 0

/-- An optional sign, and what follows. -/
def scanSign : CStr → Bool × CStr
  | [] => (false, [])
  | c :: s => if c = '-' then (true, s) else if c = '+' then (false, s) else (false, c :: s)

/-- Whether a string goes on with a hexadecimal digit behind `x`. -/
def hexFollows : CStr → Bool
  | x :: c :: _ => (x = 'x' || x = 'X') && ((digitVal c).any fun d => decide (d < 16))
  | _ => false

/-- The base of a number that tells its base by a prefix, and its digits. -/
def scanBase : CStr → Nat × CStr
  | [] => (10, [])
  | c :: s =>
      if c = '0' then
        if hexFollows s then (16, s.drop 1) else (8, c :: s)
      else (10, c :: s)

/-- The result of a scan: the value, the end pointer and whether the number was
out of range. -/
structure Scan where
  value : BitVec 64
  rest : CStr
  range : Bool

/-- `strtoull` with base 0.  Without digits the end pointer is the start. -/
def strtoull (s : CStr) : Scan :=
  let sign := scanSign (s.dropWhile isSpace)
  let num := scanBase sign.2
  let ds := scanDigits num.1 num.2
  if ds.1 = [] then ⟨0, s, false⟩
  else
    let n := ofDigits num.1 ds.1
    if n < 2 ^ 64 then
      ⟨if sign.1 then -BitVec.ofNat 64 n else BitVec.ofNat 64 n, ds.2, false⟩
    else ⟨BitVec.allOnes 64, ds.2, true⟩

/-- `strtoul` with base 0, where {lit}`unsigned long` has 64 bits. -/
def strtoul (s : CStr) : Scan :=
  strtoull s

/-- `strtol` with base 0 and no end pointer. -/
def strtol (s : CStr) : Int :=
  let sign := scanSign (s.dropWhile isSpace)
  let num := scanBase sign.2
  let n := ofDigits num.1 (scanDigits num.1 num.2).1
  if sign.1 then max (-n) (-2 ^ 63) else min n (2 ^ 63 - 1)

/-- `strtok` with one delimiter: the next token and the saved rest. -/
def strtok (delim : Char) (s : CStr) : Option (CStr × CStr) :=
  let s := s.dropWhile (· = delim)
  if s = [] then none
  else some (s.takeWhile (· ≠ delim), (s.dropWhile (· ≠ delim)).drop 1)

/-! ## The end pointer -/

/-- The characters that can be part of a number. -/
def isNumeric (c : Char) : Bool :=
  isSpace c || c = '-' || c = '+' || (digitVal c).isSome

theorem scanDigits_append (base : Nat) (s : CStr) :
    ∃ front, s = front ++ (scanDigits base s).2 ∧ ∀ c ∈ front, isNumeric c := by
  induction s with
  | nil => exact ⟨[], rfl, by simp⟩
  | cons c s ih =>
      unfold scanDigits
      cases hc : digitVal c with
      | none => exact ⟨[], rfl, by simp⟩
      | some d =>
          obtain ⟨front, hs, hfront⟩ := ih
          by_cases hlt : d < base
          · refine ⟨c :: front, ?_, ?_⟩
            · simp only [hlt, if_true, List.cons_append]
              rw [← hs]
            · intro x hx
              rcases List.mem_cons.mp hx with rfl | hx
              · simp [isNumeric, hc]
              · exact hfront x hx
          · exact ⟨[], by simp [hlt], by simp⟩

theorem scanSign_append (s : CStr) :
    ∃ front, s = front ++ (scanSign s).2 ∧ ∀ c ∈ front, isNumeric c := by
  cases s with
  | nil => exact ⟨[], rfl, by simp⟩
  | cons c s =>
      simp only [scanSign]
      split_ifs with hneg hpos
      · exact ⟨[c], rfl, by simp [isNumeric, hneg]⟩
      · exact ⟨[c], rfl, by simp [isNumeric, hpos]⟩
      · exact ⟨[], rfl, by simp⟩

theorem isNumeric_of_hexFollows {s : CStr} (h : hexFollows s) : ∀ c ∈ s.take 1, isNumeric c := by
  match s with
  | [] => simp
  | [x] => simp [hexFollows] at h
  | x :: c :: _ =>
      simp only [hexFollows, Bool.and_eq_true, Bool.or_eq_true, decide_eq_true_eq] at h
      intro y hy
      simp only [List.take_succ_cons, List.take_zero, List.mem_singleton] at hy
      rcases h.1 with hx | hx <;> rw [hy, hx] <;> rfl

theorem scanBase_append (s : CStr) :
    ∃ front, s = front ++ (scanBase s).2 ∧ ∀ c ∈ front, isNumeric c := by
  cases s with
  | nil => exact ⟨[], rfl, by simp⟩
  | cons c s =>
      simp only [scanBase]
      split_ifs with hzero hhex
      · refine ⟨c :: s.take 1, by rw [List.cons_append, List.take_append_drop], ?_⟩
        intro x hx
        rcases List.mem_cons.mp hx with rfl | hx
        · rw [hzero]
          rfl
        · exact isNumeric_of_hexFollows hhex x hx
      · exact ⟨[], rfl, by simp⟩
      · exact ⟨[], rfl, by simp⟩

/-- The scanned part of a string and the rest make up the string. -/
theorem strtoull_append (s : CStr) :
    ∃ front, s = front ++ (strtoull s).rest ∧ ∀ c ∈ front, isNumeric c := by
  obtain ⟨sign, hsign, hsign'⟩ := scanSign_append (s.dropWhile isSpace)
  obtain ⟨pre, hpre, hpre'⟩ := scanBase_append (scanSign (s.dropWhile isSpace)).2
  obtain ⟨ds, hds, hds'⟩ := scanDigits_append
    (scanBase (scanSign (s.dropWhile isSpace)).2).1 (scanBase (scanSign (s.dropWhile isSpace)).2).2
  have hfull : s = (s.takeWhile isSpace ++ sign ++ pre ++ ds) ++
      (scanDigits (scanBase (scanSign (s.dropWhile isSpace)).2).1
        (scanBase (scanSign (s.dropWhile isSpace)).2).2).2 := by
    rw [List.append_assoc _ ds, ← hds, List.append_assoc _ pre, ← hpre, List.append_assoc _ sign,
      ← hsign, List.takeWhile_append_dropWhile]
  have hnum : ∀ c ∈ s.takeWhile isSpace ++ sign ++ pre ++ ds, isNumeric c := by
    intro c hc
    simp only [List.mem_append] at hc
    rcases hc with ((hc | hc) | hc) | hc
    · simp [isNumeric, List.mem_takeWhile_imp hc]
    · exact hsign' c hc
    · exact hpre' c hc
    · exact hds' c hc
  unfold strtoull
  simp only
  split_ifs
  · exact ⟨[], rfl, by simp⟩
  · exact ⟨_, hfull, hnum⟩
  · exact ⟨_, hfull, hnum⟩
  · exact ⟨_, hfull, hnum⟩

/-- A character that no number has is in the rest, if it is in the string. -/
theorem mem_strtoull_rest_iff {s : CStr} {c : Char} (h : isNumeric c = false) :
    c ∈ (strtoull s).rest ↔ c ∈ s := by
  obtain ⟨front, hs, hfront⟩ := strtoull_append s
  constructor
  · intro hc
    rw [hs]
    exact List.mem_append_right _ hc
  · intro hc
    rw [hs] at hc
    rcases List.mem_append.mp hc with hc | hc
    · rw [hfront c hc] at h
      cases h
    · exact hc

/-! ## Tokens -/

/-- A token is what stands between delimiters, and is not empty. -/
theorem strtok_eq_some_iff {delim : Char} {s tok saved : CStr} :
    strtok delim s = some (tok, saved) ↔ tok ≠ [] ∧ delim ∉ tok ∧ ∃ front tail,
      (∀ c ∈ front, c = delim) ∧ (∀ c ∈ tail.head?, c = delim) ∧ s = front ++ tok ++ tail ∧
        saved = tail.drop 1 := by
  constructor
  · intro h
    simp only [strtok] at h
    split_ifs at h with hempty
    cases h
    refine ⟨?_, ?_, s.takeWhile (· = delim), (s.dropWhile (· = delim)).dropWhile (· ≠ delim),
      fun c hc => by simpa using List.mem_takeWhile_imp hc, ?_, ?_, rfl⟩
    · have hhead := List.head_dropWhile_not (· = delim) hempty
      cases hs : s.dropWhile (· = delim) with
      | nil => exact absurd hs hempty
      | cons c t =>
          simp only [hs, List.head_cons, decide_eq_false_iff_not] at hhead
          rw [List.takeWhile_cons_of_pos (by simpa using hhead)]
          exact List.cons_ne_nil _ _
    · exact fun hmem => absurd (List.mem_takeWhile_imp hmem) (by simp)
    · intro c hc
      have hne : (s.dropWhile (· = delim)).dropWhile (· ≠ delim) ≠ [] := by
        rintro hnil
        rw [hnil] at hc
        cases hc
      have hhead := List.head_dropWhile_not (· ≠ delim) hne
      rw [List.head?_eq_some_head hne, Option.mem_some_iff] at hc
      rw [hc] at hhead
      simpa using hhead
    · rw [List.append_assoc, List.takeWhile_append_dropWhile, List.takeWhile_append_dropWhile]
  · rintro ⟨hne, hdelim, front, tail, hfront, htail, rfl, rfl⟩
    have hskip : (front ++ tok ++ tail).dropWhile (· = delim) = tok ++ tail := by
      rw [List.append_assoc, List.dropWhile_append_of_pos (by simpa using hfront)]
      obtain ⟨c, t, rfl⟩ := List.exists_cons_of_ne_nil hne
      have hc : c ≠ delim := fun heq => hdelim (heq ▸ List.mem_cons_self)
      rw [List.cons_append, List.dropWhile_cons_of_neg (by simpa using hc)]
    have htok : ∀ c ∈ tok, decide (c ≠ delim) = true := by
      intro c hc
      rw [decide_eq_true_eq]
      rintro rfl
      exact hdelim hc
    have hstop : tail.takeWhile (· ≠ delim) = [] ∧ tail.dropWhile (· ≠ delim) = tail := by
      cases tail with
      | nil => exact ⟨rfl, rfl⟩
      | cons c t =>
          obtain rfl := htail c rfl
          exact ⟨List.takeWhile_cons_of_neg (by simp), List.dropWhile_cons_of_neg (by simp)⟩
    simp only [strtok, hskip]
    rw [if_neg (List.append_ne_nil_of_left_ne_nil hne _), List.takeWhile_append_of_pos htok,
      List.dropWhile_append_of_pos htok, hstop.1, hstop.2, List.append_nil]

end MdioTools.Library
