import MdioTools.Client.Parse
import MdioTools.Library.Numeral

/-!
# The operands of a command

Addresses, values and registers are written as numbers.  The parsers of the
client take for a number whatever {lit}`strtoul` reads to its end, which may also
be nothing at all, or begin with white space and a sign; and {lit}`strtok` passes
over separators that stand where none is expected.

Main results:

- Definitions {lit}`DevForm`, {lit}`ValForm` and {lit}`RegForm`: operands whose
  numbers are of some kind.
- Theorems {lit}`mdioParseDev_iff`, {lit}`mdioParseVal_iff` and
  {lit}`mvlsParseReg_iff`: the operands that are accepted.
- Theorem {lit}`operands_iff`: on which strings numerals alone are accepted.
-/

namespace MdioTools.Client

open Kernel Library

/-! ## Forms -/

/-- A number up to a maximum, or, where a pair is allowed, two with a separator
between. -/
inductive OperandForm (number : CStr → Nat → Prop) (sep : Char) (pair : Bool) (max : Nat) :
    CStr → Nat × Option Nat → Prop
  | one {s : CStr} {a : Nat} : number s a → a ≤ max →
      OperandForm number sep pair max s (a, none)
  | both {s t : CStr} {a b : Nat} : pair = true → number s a → number t b → a ≤ max → b ≤ max →
      OperandForm number sep pair max (s ++ sep :: t) (a, some b)

/-- The word of a Clause 22 address, or of a port and a device for Clause 45. -/
def devWord : Nat × Option Nat → BitVec 16
  | (a, none) => BitVec.ofNat 16 a
  | (a, some b) => mdioPhyIdC45Word (BitVec.ofNat 16 a) (BitVec.ofNat 16 b)

/-- A device address: a number up to 31, or, where Clause 45 is allowed, two with a
colon between. -/
def DevForm (number : CStr → Nat → Prop) (allowC45 : Bool) (str : CStr) (id : BitVec 16) : Prop :=
  ∃ a, OperandForm number ':' allowC45 31 str a ∧ id = devWord a

/-- A value and a mask, which is 0 if it is absent. -/
def valWords (a : Nat × Option Nat) : BitVec 32 × BitVec 32 :=
  (BitVec.ofNat 32 a.1, BitVec.ofNat 32 (a.2.getD 0))

/-- A value of a register of some width: a number, or, where a mask is allowed, two
with a slash between. -/
def ValForm (number : CStr → Nat → Prop) (width : Nat) (mask : Bool) (str : CStr)
    (out : BitVec 32 × BitVec 32) : Prop :=
  ∃ a, OperandForm number '/' mask (2 ^ width - 1) str a ∧ out = valWords a

/-- The names of the global registers of a switch. -/
inductive PortName : CStr → BitVec 32 → Prop
  | global1 : PortName "global1".toList mvlsG1
  | g1 : PortName "g1".toList mvlsG1
  | global2 : PortName "global2".toList mvlsG2
  | g2 : PortName "g2".toList mvlsG2

/-- A port of a switch: a name, or a number up to 31. -/
inductive PortForm (number : CStr → Nat → Prop) : CStr → BitVec 32 → Prop
  | name {s : CStr} {port : BitVec 32} : PortName s port → PortForm number s port
  | number {s : CStr} {p : Nat} : number s p → p ≤ 31 → PortForm number s (BitVec.ofNat 32 p)

/-- A register of a switch: a port and a number up to 31 with a colon between. -/
inductive RegForm (number : CStr → Nat → Prop) : CStr → BitVec 32 × BitVec 32 → Prop
  | mk {s t : CStr} {port : BitVec 32} {r : Nat} : PortForm number s port → number t r → r ≤ 31 →
      RegForm number (s ++ ':' :: t) (mvlsReg port (BitVec.ofNat 32 r), 0)

/-- The same with colons anywhere around the two, and anything behind a colon at
the end. -/
inductive RegTokens : CStr → BitVec 32 × BitVec 32 → Prop
  | mk {front s mid t tail : CStr} {port : BitVec 32} {r : Nat} : (∀ c ∈ front, c = ':') →
      s ≠ [] → ':' ∉ s → (∀ c ∈ mid, c = ':') → t ≠ [] → ':' ∉ t → (∀ c ∈ tail.head?, c = ':') →
      PortForm Scanned s port → Scanned t r → r ≤ 31 →
      RegTokens (front ++ s ++ ':' :: (mid ++ t ++ tail)) (mvlsReg port (BitVec.ofNat 32 r), 0)

/-! ## Operands that are accepted -/

theorem isNumeric_colon : isNumeric ':' = false := by decide

theorem isNumeric_slash : isNumeric '/' = false := by decide

/-- A scan of the whole string, below the number that `strtoull` saturates at. -/
theorem strtoull_end_iff {s : CStr} {n : Nat} (hn : n < 2 ^ 64 - 1) :
    (strtoull s).rest = [] ∧ (strtoull s).value.toNat = n ↔ Scanned s n := by
  rw [strtoull_iff (by simp) hn]
  simp

/-- The number that a scan to the end of the string has read. -/
theorem scanned_of_end {s : CStr} (hrest : (strtoull s).rest = [])
    (hlt : (strtoull s).value.toNat < 2 ^ 64 - 1) : Scanned s (strtoull s).value.toNat :=
  (strtoull_end_iff hlt).mp ⟨hrest, rfl⟩

/-- The number in front of a separator. -/
theorem scanned_of_sep {sep : Char} (hsep : isNumeric sep = false) {s after : CStr}
    (hrest : (strtoull s).rest = sep :: after) (hlt : (strtoull s).value.toNat < 2 ^ 64 - 1) :
    ∃ front, s = front ++ sep :: after ∧ Scanned front (strtoull s).value.toNat :=
  (strtoull_iff (by rintro _ ⟨⟩; exact hsep) hlt).mp ⟨hrest, rfl⟩

/-- What is scanned is the value, and nothing is left. -/
theorem scan_of_scanned {s : CStr} {n : Nat} (h : Scanned s n) (hn : n < 2 ^ 64 - 1) :
    (strtoull s).rest = [] ∧ (strtoull s).value = BitVec.ofNat 64 n := by
  obtain ⟨hrest, hval⟩ := (strtoull_end_iff hn).mpr h
  exact ⟨hrest, by rw [← hval, BitVec.ofNat_toNat, BitVec.setWidth_eq]⟩

/-- A number in front of a separator is scanned up to it. -/
theorem scan_of_scanned_sep {sep : Char} (hsep : isNumeric sep = false) {s : CStr} {n : Nat}
    (h : Scanned s n) (hn : n < 2 ^ 64 - 1) (after : CStr) :
    (strtoull (s ++ sep :: after)).rest = sep :: after ∧
      (strtoull (s ++ sep :: after)).value = BitVec.ofNat 64 n := by
  have hstop : ∀ c ∈ (sep :: after).head?, isNumeric c = false := by rintro _ ⟨⟩; exact hsep
  obtain ⟨hrest, hval⟩ := (strtoull_iff hstop hn).mpr ⟨s, rfl, h⟩
  exact ⟨hrest, by rw [← hval, BitVec.ofNat_toNat, BitVec.setWidth_eq]⟩

/-- A device address is accepted when its numbers are scanned. -/
theorem mdioParseDev_iff {str : CStr} {allowC45 : Bool} {id : BitVec 16} :
    mdioParseDev str allowC45 = .ok id ↔ DevForm Scanned allowC45 str id := by
  rw [mdioParseDev_ok_iff]
  unfold strtoul
  constructor
  · rintro (⟨hrest, hle, rfl⟩ | ⟨hallow, after, hrest, hend, hle, hle', rfl⟩)
    · refine ⟨_, .one (scanned_of_end hrest (by omega)) hle, ?_⟩
      rw [devWord, BitVec.ofNat_toNat]
    · obtain ⟨front, rfl, hfront⟩ := scanned_of_sep isNumeric_colon hrest (by omega)
      refine ⟨_, .both hallow hfront (scanned_of_end hend (by omega)) hle hle', ?_⟩
      rw [devWord, BitVec.ofNat_toNat, BitVec.ofNat_toNat]
  · have htrunc : ∀ n : Nat, (BitVec.ofNat 64 n).setWidth 16 = BitVec.ofNat 16 n := fun n =>
      BitVec.setWidth_ofNat_of_le (by decide) n
    rintro ⟨_, ⟨hnum, hle⟩ | @⟨_, t, _, _, hallow, hnum, hnum', hle, hle'⟩, rfl⟩
    · obtain ⟨hrest, hval⟩ := scan_of_scanned hnum (by omega)
      rw [hval, BitVec.toNat_ofNat, htrunc]
      exact Or.inl ⟨hrest, by omega, rfl⟩
    · obtain ⟨hrest, hval⟩ := scan_of_scanned_sep isNumeric_colon hnum (by omega) t
      obtain ⟨hend, hval'⟩ := scan_of_scanned hnum' (by omega)
      rw [hval, BitVec.toNat_ofNat, htrunc]
      refine Or.inr ⟨hallow, _, hrest, hend, by omega, ?_, ?_⟩
      · rw [hval', BitVec.toNat_ofNat]
        omega
      · rw [hval', htrunc]
        rfl

/-- So is a value. -/
theorem mdioParseVal_iff {str : CStr} {width : Nat} {mask : Bool} {out : BitVec 32 × BitVec 32}
    (hwidth : width ≤ 30) :
    mdioParseVal width (some str) mask = .ok out ↔ ValForm Scanned width mask str out := by
  have hmax : 2 ^ width - 1 < 2 ^ 64 - 1 := by
    have := Nat.pow_le_pow_right (show 0 < 2 by decide) hwidth
    omega
  have htrunc : ∀ n : Nat, (BitVec.ofNat 64 n).setWidth 32 = BitVec.ofNat 32 n := fun n =>
    BitVec.setWidth_ofNat_of_le (by decide) n
  have hmod : ∀ {n : Nat}, n ≤ 2 ^ width - 1 → n % 2 ^ 64 = n := fun hle =>
    Nat.mod_eq_of_lt (by omega)
  unfold mdioParseVal ValForm
  generalize 2 ^ width - 1 = max at hmax hmod ⊢
  constructor
  · intro h
    simp only at h
    split at h
    · rename_i hrest
      split_ifs at h with hv
      cases h
      refine ⟨_, .one (scanned_of_end hrest (by omega)) (Nat.not_lt.mp hv), ?_⟩
      rw [valWords, BitVec.ofNat_toNat]
      rfl
    · rename_i c after hrest
      split_ifs at h with hsep hmask hend hv hm
      cases h
      obtain rfl : c = '/' := not_not.mp hsep
      obtain ⟨front, rfl, hfront⟩ := scanned_of_sep isNumeric_slash hrest (by omega)
      refine ⟨_, .both (by simpa using hmask) hfront
        (scanned_of_end (not_not.mp hend) (by omega)) (Nat.not_lt.mp hv) (Nat.not_lt.mp hm), ?_⟩
      rw [valWords, BitVec.ofNat_toNat, Option.getD_some, BitVec.ofNat_toNat]
  · rintro ⟨_, ⟨hnum, hle⟩ | @⟨_, t, _, _, hmask, hnum, hnum', hle, hle'⟩, rfl⟩
    · obtain ⟨hrest, hval⟩ := scan_of_scanned hnum (by omega)
      simp only [hrest, hval, BitVec.toNat_ofNat, hmod hle, htrunc, if_neg (Nat.not_lt.mpr hle)]
      simp [valWords]
    · obtain ⟨hrest, hval⟩ := scan_of_scanned_sep isNumeric_slash hnum (by omega) t
      obtain ⟨hend, hval'⟩ := scan_of_scanned hnum' (by omega)
      simp only [hrest, hval, hend, hval', hmask, BitVec.toNat_ofNat, hmod hle, hmod hle', htrunc,
        if_neg (Nat.not_lt.mpr hle), if_neg (Nat.not_lt.mpr hle')]
      simp [valWords]

/-! ### Registers of switches -/

/-- The first character of something that is scanned. -/
theorem Scanned.head {c : Char} {s : CStr} {n : Nat} (h : Scanned (c :: s) n) :
    isSpace c ∨ c = '-' ∨ c = '+' ∨ IsDigit 10 c := by
  rcases h with ⟨hnil, -⟩ | ⟨v, ⟨space, sign, numeral, neg, m, hs, hspace, hsign, hnum, -⟩, -⟩
  · cases hnil
  · cases space with
    | cons y space =>
        obtain rfl : c = y := (List.cons.inj hs).1
        exact Or.inl (hspace c List.mem_cons_self)
    | nil =>
        cases hsign with
        | none =>
            obtain ⟨x, u, rfl, hx⟩ := hnum.exists_head
            obtain rfl : c = x := (List.cons.inj hs).1
            exact Or.inr (Or.inr (Or.inr hx))
        | plus =>
            obtain rfl : c = '+' := (List.cons.inj hs).1
            exact Or.inr (Or.inr (Or.inl rfl))
        | minus =>
            obtain rfl : c = '-' := (List.cons.inj hs).1
            exact Or.inr (Or.inl rfl)

/-- A name is not scanned as a number. -/
theorem PortName.not_scanned {s : CStr} {port : BitVec 32} (h : PortName s port) (n : Nat) :
    ¬Scanned s n := by
  have hg : ¬(isSpace 'g' ∨ 'g' = '-' ∨ 'g' = '+' ∨ IsDigit 10 'g') := by
    rintro (h | h | h | ⟨d, hd, hlt⟩)
    · exact absurd h (by decide)
    · exact absurd h (by decide)
    · exact absurd h (by decide)
    · cases hd
      exact absurd hlt (by decide)
  intro hscan
  cases h <;> exact hg (Scanned.head hscan)

/-- The names of the two global ports, long and short. -/
theorem PortName.iff {s : CStr} {port : BitVec 32} : PortName s port ↔
    (s = "global1".toList ∨ s = "g1".toList) ∧ port = mvlsG1 ∨
      (s = "global2".toList ∨ s = "g2".toList) ∧ port = mvlsG2 := by
  constructor
  · rintro (_ | _ | _ | _) <;> simp
  · rintro (⟨rfl | rfl, rfl⟩ | ⟨rfl | rfl, rfl⟩)
    · exact .global1
    · exact .g1
    · exact .global2
    · exact .g2

/-- A port is accepted when it is a name or its number is scanned. -/
theorem mvlsParsePort_iff {s : CStr} {port : BitVec 16} :
    mvlsParsePort s = .ok port ↔
      ∃ p : BitVec 32, PortForm Scanned s p ∧ port = p.setWidth 16 := by
  constructor
  · intro h
    unfold mvlsParsePort at h
    simp only at h
    split_ifs at h with hg1 hg2 hrest hle
    · cases h
      exact ⟨mvlsG1, .name (PortName.iff.mpr (Or.inl ⟨hg1, rfl⟩)), rfl⟩
    · cases h
      exact ⟨mvlsG2, .name (PortName.iff.mpr (Or.inr ⟨hg2, rfl⟩)), rfl⟩
    · cases h
      have hscan := scanned_of_end (not_not.mp hrest) (by unfold strtoul at hle; omega)
      refine ⟨_, .number hscan (Nat.not_lt.mp hle), ?_⟩
      rw [BitVec.setWidth_ofNat_of_le (by decide), BitVec.ofNat_toNat]
      rfl
  · rintro ⟨p, hname | ⟨hnum, hle⟩, rfl⟩
    · cases hname <;> rfl
    · have hnot : ∀ port, ¬PortName s port := fun port hname => hname.not_scanned _ hnum
      have hg1 : ¬(s = "global1".toList ∨ s = "g1".toList) := fun h =>
        hnot mvlsG1 (PortName.iff.mpr (Or.inl ⟨h, rfl⟩))
      have hg2 : ¬(s = "global2".toList ∨ s = "g2".toList) := fun h =>
        hnot mvlsG2 (PortName.iff.mpr (Or.inr ⟨h, rfl⟩))
      obtain ⟨hrest, hval⟩ := scan_of_scanned hnum (by omega)
      simp only [mvlsParsePort, if_neg hg1, if_neg hg2, strtoul, hrest, hval, BitVec.toNat_ofNat]
      rw [if_neg (not_not.mpr rfl), if_neg (by omega), BitVec.setWidth_ofNat_of_le (by decide),
        BitVec.setWidth_ofNat_of_le (by decide)]

/-- The register behind a port. -/
theorem mvlsReg_setWidth (port : BitVec 32) (h : port.toNat ≤ 31) (reg : BitVec 32) :
    (port.setWidth 16).setWidth 32 <<< 16 ||| reg = mvlsReg port reg := by
  have hport : (port.setWidth 16 : BitVec 16).setWidth 32 = port := by
    apply BitVec.eq_of_toNat_eq
    simp only [BitVec.toNat_setWidth]
    omega
  rw [hport, mvlsReg]

/-- A port has five bits. -/
theorem PortForm.toNat_le {number : CStr → Nat → Prop} {s : CStr} {port : BitVec 32}
    (h : PortForm number s port) : port.toNat ≤ 31 := by
  rcases h with hname | ⟨-, hle⟩
  · cases hname <;> decide
  · rw [BitVec.toNat_ofNat]
    omega

/-- A register is accepted when its tokens are. -/
theorem mvlsParseReg_iff {str : CStr} {out : BitVec 32 × BitVec 32} :
    mvlsParseReg (some str) false = .ok out ↔ RegTokens str out := by
  constructor
  · intro h
    simp only [mvlsParseReg, Bool.false_eq_true, if_false, Option.bind_some] at h
    split at h
    · cases h
    · rename_i s saved hfirst
      cases hport : mvlsParsePort s with
      | error e => simp [hport, bind, Except.bind] at h
      | ok port =>
          simp only [hport, bind, Except.bind] at h
          split at h
          · cases h
          · rename_i t after hsecond
            split_ifs at h with hrest hle
            cases h
            obtain ⟨hs, hcolon, front, tail, hfront, htail, rfl, rfl⟩ :=
              strtok_eq_some_iff.mp hfirst
            obtain ⟨ht, hcolon', mid, tail', hmid, htail', hsaved, -⟩ :=
              strtok_eq_some_iff.mp hsecond
            obtain ⟨p, hform, rfl⟩ := mvlsParsePort_iff.mp hport
            have hscan := scanned_of_end (not_not.mp hrest) (by unfold strtoul at hle; omega)
            rw [mvlsReg_setWidth p hform.toNat_le, ← BitVec.ofNat_toNat]
            cases tail with
            | nil =>
                rw [List.drop_nil] at hsaved
                simp [ht] at hsaved
            | cons c tail =>
                obtain rfl := htail c rfl
                rw [List.drop_succ_cons, List.drop_zero] at hsaved
                rw [hsaved]
                exact .mk hfront hs hcolon hmid ht hcolon' htail' hform hscan (Nat.not_lt.mp hle)
  · rintro @⟨front, s, mid, t, tail, port, r, hfront, hs, hcolon, hmid, ht, hcolon', htail, hport,
      hscan, hle⟩
    have hfirst : strtok ':' (front ++ s ++ ':' :: (mid ++ t ++ tail)) =
        some (s, mid ++ t ++ tail) :=
      strtok_eq_some_iff.mpr
        ⟨hs, hcolon, front, ':' :: (mid ++ t ++ tail), hfront, by simp, rfl, rfl⟩
    have hsecond : strtok ':' (mid ++ t ++ tail) = some (t, tail.drop 1) :=
      strtok_eq_some_iff.mpr ⟨ht, hcolon', mid, tail, hmid, htail, rfl, rfl⟩
    have hpar := mvlsParsePort_iff.mpr ⟨port, hport, rfl⟩
    obtain ⟨hrest, hval⟩ := scan_of_scanned hscan (by omega)
    simp only [mvlsParseReg, Bool.false_eq_true, if_false, Option.bind_some, hfirst, hpar, bind,
      Except.bind, hsecond, strtoul, hrest, hval, BitVec.toNat_ofNat]
    rw [if_neg (not_not.mpr rfl), if_neg (by omega), mvlsReg_setWidth port hport.toNat_le,
      BitVec.setWidth_ofNat_of_le (by decide)]

/-! ## Strings on which numerals alone are accepted -/

/-- What stands in front of the first separator of an operand, and what behind. -/
def operandParts (sep : Char) (str : CStr) : List CStr :=
  str.takeWhile (· ≠ sep) ::
    match str.dropWhile (· ≠ sep) with
    | [] => []
    | _ :: after => [after]

/-- All numbers of an operand begin with a digit. -/
def DigitsFirst (sep : Char) (str : CStr) : Prop :=
  ∀ s ∈ operandParts sep str, StartsDigit s

/-- A register with one colon, between a name or something that begins with a digit
and something that does. -/
def RegDigitsFirst (str : CStr) : Prop :=
  ∃ s t, str = s ++ ':' :: t ∧ ':' ∉ s ∧ ':' ∉ t ∧ ((∃ port, PortName s port) ∨ StartsDigit s) ∧
    StartsDigit t

/-- A string without the separator has one part. -/
theorem operandParts_of_not_mem {sep : Char} {s : CStr} (h : sep ∉ s) :
    operandParts sep s = [s] := by
  have hall : ∀ c ∈ s, decide (c ≠ sep) = true := by
    intro c hc
    rw [decide_eq_true_eq]
    exact ne_of_mem_of_not_mem hc h
  rw [operandParts, List.takeWhile_eq_self_iff.mpr hall, List.dropWhile_eq_nil_iff.mpr hall]

/-- A string is parted at its first separator. -/
theorem operandParts_append {sep : Char} {s : CStr} (h : sep ∉ s) (t : CStr) :
    operandParts sep (s ++ sep :: t) = [s, t] := by
  have hall : ∀ c ∈ s, decide (c ≠ sep) = true := by
    intro c hc
    rw [decide_eq_true_eq]
    exact ne_of_mem_of_not_mem hc h
  rw [operandParts, List.takeWhile_append_of_pos hall, List.dropWhile_append_of_pos hall,
    List.takeWhile_cons_of_neg (by simp), List.dropWhile_cons_of_neg (by simp), List.append_nil]

/-- A number consists of the characters that numbers have. -/
theorem Number.isNumeric {s : CStr} {v : BitVec 64} (h : Number s v) : ∀ c ∈ s, isNumeric c := by
  obtain ⟨space, sign, numeral, _, _, rfl, hspace, hsign, hnum, -⟩ := h
  intro c hc
  rcases List.mem_append.mp hc with hc | hc
  · rcases List.mem_append.mp hc with hc | hc
    · simp [Library.isNumeric, hspace c hc]
    · cases hsign with
      | none => cases hc
      | plus => exact List.mem_singleton.mp hc ▸ by decide
      | minus => exact List.mem_singleton.mp hc ▸ by decide
  · exact hnum.isNumeric c hc

/-- Separators are not part of what is scanned. -/
theorem Scanned.not_mem {sep : Char} (hsep : Library.isNumeric sep = false) {s : CStr} {n : Nat}
    (h : Scanned s n) : sep ∉ s := by
  rcases h with ⟨rfl, -⟩ | ⟨v, hnum, -⟩
  · exact List.not_mem_nil
  · intro hmem
    rw [Number.isNumeric hnum sep hmem] at hsep
    cases hsep

/-- There is no separator in a numeral. -/
theorem Numeral.not_mem {sep : Char} (hsep : Library.isNumeric sep = false) {s : CStr} {n : Nat}
    (h : Numeral s n) : sep ∉ s := by
  intro hmem
  rw [h.isNumeric sep hmem] at hsep
  cases hsep

variable {sep : Char} {pair : Bool} {max : Nat} {str : CStr}

/-- Numerals are scanned. -/
theorem OperandForm.scanned {a : Nat × Option Nat} (hmax : max < 2 ^ 64)
    (h : OperandForm Numeral sep pair max str a) : OperandForm Scanned sep pair max str a := by
  cases h with
  | one hnum hle => exact .one (hnum.scanned (by omega)) hle
  | both hpair hnum hnum' hle hle' =>
      exact .both hpair (hnum.scanned (by omega)) (hnum'.scanned (by omega)) hle hle'

/-- What is scanned are numerals, if it begins with digits. -/
theorem OperandForm.numeral (hsep : isNumeric sep = false) {a : Nat × Option Nat}
    (h : OperandForm Scanned sep pair max str a) (hdigits : DigitsFirst sep str) :
    OperandForm Numeral sep pair max str a := by
  cases h with
  | one hnum hle =>
      rw [DigitsFirst, operandParts_of_not_mem (Scanned.not_mem hsep hnum)] at hdigits
      exact .one (hnum.numeral (hdigits _ List.mem_cons_self)) hle
  | both hpair hnum hnum' hle hle' =>
      rw [DigitsFirst, operandParts_append (Scanned.not_mem hsep hnum)] at hdigits
      exact .both hpair (hnum.numeral (hdigits _ List.mem_cons_self))
        (hnum'.numeral (hdigits _ (List.mem_cons_of_mem _ List.mem_cons_self))) hle hle'

/-- The parts of an operand of numerals begin with digits. -/
theorem OperandForm.digitsFirst (hsep : isNumeric sep = false) {a : Nat × Option Nat}
    (h : OperandForm Numeral sep pair max str a) : DigitsFirst sep str := by
  cases h with
  | one hnum _ =>
      rw [DigitsFirst, operandParts_of_not_mem (Numeral.not_mem hsep hnum),
        List.forall_mem_singleton]
      exact hnum.startsDigit
  | both _ hnum hnum' _ _ =>
      rw [DigitsFirst, operandParts_append (Numeral.not_mem hsep hnum), List.forall_mem_cons,
        List.forall_mem_singleton]
      exact ⟨hnum.startsDigit, hnum'.startsDigit⟩

/-- A parser that accepts what is scanned accepts numerals alone exactly when the
string is not scanned, or its numbers begin with digits. -/
theorem numerals_iff {ω : Type} {parse : Except CmdError ω} {word : Nat × Option Nat → ω}
    (hsep : isNumeric sep = false) (hmax : max < 2 ^ 64)
    (hparse : ∀ out, parse = .ok out ↔ ∃ a, OperandForm Scanned sep pair max str a ∧ out = word a) :
    (∀ out, parse = .ok out ↔ ∃ a, OperandForm Numeral sep pair max str a ∧ out = word a) ↔
      ((∃ a, OperandForm Scanned sep pair max str a) → DigitsFirst sep str) := by
  constructor
  · rintro h ⟨a, ha⟩
    obtain ⟨b, hb, -⟩ := (h _).mp ((hparse (word a)).mpr ⟨a, ha, rfl⟩)
    exact hb.digitsFirst hsep
  · intro hdigits out
    rw [hparse out]
    constructor
    · rintro ⟨a, ha, rfl⟩
      exact ⟨a, ha.numeral hsep (hdigits ⟨a, ha⟩), rfl⟩
    · rintro ⟨a, ha, rfl⟩
      exact ⟨a, ha.scanned hmax, rfl⟩

/-! ### Registers of switches -/

/-- There is no colon in the name of a port. -/
theorem PortName.not_mem {s : CStr} {port : BitVec 32} (h : PortName s port) : ':' ∉ s := by
  cases h <;> simp

/-- A port of a register that is accepted in either sense is not empty and has no
colon. -/
theorem PortForm.colon {s : CStr} {port : BitVec 32} (h : PortForm Numeral s port) :
    s ≠ [] ∧ ':' ∉ s := by
  rcases h with hname | ⟨hnum, -⟩
  · exact ⟨by cases hname <;> simp, hname.not_mem⟩
  · obtain ⟨c, t, rfl, -⟩ := hnum.exists_head
    exact ⟨List.cons_ne_nil c t, Numeral.not_mem isNumeric_colon hnum⟩

/-- A register of numerals has the tokens of its parts. -/
theorem RegForm.tokens {out : BitVec 32 × BitVec 32} (h : RegForm Numeral str out) :
    RegTokens str out := by
  obtain @⟨s, t, port, r, hport, hnum, hle⟩ := h
  obtain ⟨hs, hcolon⟩ := hport.colon
  obtain ⟨c, u, ht, -⟩ := hnum.exists_head
  have hport' : PortForm Scanned s port := by
    rcases hport with hname | ⟨hnum, hle⟩
    · exact .name hname
    · exact .number (hnum.scanned (by omega)) hle
  have htokens := @RegTokens.mk [] s [] t [] port r (by simp) hs hcolon (by simp)
    (ht ▸ List.cons_ne_nil c u) (Numeral.not_mem isNumeric_colon hnum) (by simp) hport'
    (hnum.scanned (by omega)) hle
  simpa using htokens

/-- The parts of a register of numerals begin with digits. -/
theorem RegForm.digitsFirst {out : BitVec 32 × BitVec 32} (h : RegForm Numeral str out) :
    RegDigitsFirst str := by
  obtain @⟨s, t, port, r, hport, hnum, hle⟩ := h
  refine ⟨s, t, rfl, hport.colon.2, Numeral.not_mem isNumeric_colon hnum, ?_, hnum.startsDigit⟩
  rcases hport with hname | ⟨hnum, -⟩
  · exact Or.inl ⟨port, hname⟩
  · exact Or.inr hnum.startsDigit

/-- With one colon there is nothing around the tokens. -/
theorem tokens_alone {front s mid t tail s' t' : CStr} (hfront : ∀ c ∈ front, c = ':')
    (hmid : ∀ c ∈ mid, c = ':') (htail : ∀ c ∈ tail.head?, c = ':') (hs : ':' ∉ s) (hs' : ':' ∉ s')
    (ht' : ':' ∉ t') (h : front ++ s ++ ':' :: (mid ++ t ++ tail) = s' ++ ':' :: t') :
    s = s' ∧ t = t' ∧ front = [] ∧ mid = [] ∧ tail = [] := by
  have hcount := congrArg (List.count ':') h
  simp only [List.count_append, List.count_cons_self, List.count_eq_zero.mpr hs,
    List.count_eq_zero.mpr hs', List.count_eq_zero.mpr ht'] at hcount
  have hnil : ∀ l : CStr, (∀ c ∈ l.head?, c = ':') → l.count ':' = 0 → l = [] := by
    intro l hhead hzero
    cases l with
    | nil => rfl
    | cons c l =>
        obtain rfl := hhead c rfl
        simp at hzero
  have hhead : ∀ l : CStr, (∀ c ∈ l, c = ':') → ∀ c ∈ l.head?, c = ':' := fun l hl c hc =>
    hl c (List.mem_of_head? hc)
  obtain rfl := hnil front (hhead front hfront) (by omega)
  obtain rfl := hnil mid (hhead mid hmid) (by omega)
  obtain rfl := hnil tail htail (by omega)
  rw [List.nil_append, List.nil_append, List.append_nil] at h
  have hparts := congrArg (operandParts ':') h
  rw [operandParts_append hs, operandParts_append hs'] at hparts
  simp only [List.cons.injEq, and_true] at hparts
  exact ⟨hparts.1, hparts.2, rfl, rfl, rfl⟩

/-- Tokens that begin with digits are numerals. -/
theorem RegTokens.numeral {out : BitVec 32 × BitVec 32} (h : RegTokens str out)
    (hdigits : RegDigitsFirst str) : RegForm Numeral str out := by
  obtain ⟨s', t', hstr, hs', ht', hfirst, hsecond⟩ := hdigits
  obtain @⟨front, s, mid, t, tail, port, r, hfront, hs, hcolon, hmid, ht, hcolon', htail, hport,
    hscan, hle⟩ := h
  obtain ⟨rfl, rfl, rfl, rfl, rfl⟩ := tokens_alone hfront hmid htail hcolon hs' ht' hstr
  rw [hstr]
  refine .mk ?_ (hscan.numeral hsecond) hle
  rcases hport with hname | ⟨hnum, hle⟩
  · exact .name hname
  · rcases hfirst with ⟨port, hname⟩ | hdigit
    · exact absurd hnum (hname.not_scanned _)
    · exact .number (hnum.numeral hdigit) hle

/-- A device address of up to two numbers up to 31 is one that the address macros
of the kernel take apart again. -/
theorem mdioTarget_devWord {a b : Nat} (ha : a ≤ 31) (hb : b ≤ 31) :
    mdioTarget (devWord (a, none)) = .c22 (BitVec.ofNat 16 a) ∧
      mdioTarget (devWord (a, some b)) = .c45 (BitVec.ofNat 16 a) (BitVec.ofNat 16 b) := by
  have hall : ∀ p d : Fin 32,
      mdioTarget (devWord (p.val, none)) = .c22 (BitVec.ofNat 16 p) ∧
        mdioTarget (devWord (p.val, some d.val)) =
          .c45 (BitVec.ofNat 16 p) (BitVec.ofNat 16 d) := by
    decide +kernel
  exact hall ⟨a, by omega⟩ ⟨b, by omega⟩

/-- A string is accepted as a device address, a value or a register of a switch if
and only if it is made of numerals in range, exactly when it is not accepted with
other numbers: one that the parsers accept has numbers that begin with digits
(in a register of a switch also a name), and one colon at most.  The words of an
address are those that the kernel takes apart. -/
theorem operands_iff (str : CStr) :
    (∀ allowC45, (∀ id, mdioParseDev str allowC45 = .ok id ↔ DevForm Numeral allowC45 str id) ↔
      ((∃ a, OperandForm Scanned ':' allowC45 31 str a) → DigitsFirst ':' str)) ∧
    (∀ width mask, width ≤ 30 →
      ((∀ out, mdioParseVal width (some str) mask = .ok out ↔ ValForm Numeral width mask str out) ↔
        ((∃ a, OperandForm Scanned '/' mask (2 ^ width - 1) str a) → DigitsFirst '/' str))) ∧
    ((∀ out, mvlsParseReg (some str) false = .ok out ↔ RegForm Numeral str out) ↔
      ((∃ out, RegTokens str out) → RegDigitsFirst str)) ∧
    ∀ a b, a ≤ 31 → b ≤ 31 → mdioTarget (devWord (a, none)) = .c22 (BitVec.ofNat 16 a) ∧
      mdioTarget (devWord (a, some b)) = .c45 (BitVec.ofNat 16 a) (BitVec.ofNat 16 b) := by
  refine ⟨fun allowC45 => ?_, fun width mask hwidth => ?_, ?_, fun a b => mdioTarget_devWord⟩
  · exact numerals_iff isNumeric_colon (by decide) fun id => mdioParseDev_iff
  · have hmax := Nat.pow_le_pow_right (show 0 < 2 by decide) hwidth
    exact numerals_iff isNumeric_slash (by omega) fun out => mdioParseVal_iff hwidth
  · constructor
    · rintro h ⟨out, htokens⟩
      exact ((h out).mp (mvlsParseReg_iff.mpr htokens)).digitsFirst
    · intro hdigits out
      rw [mvlsParseReg_iff]
      exact ⟨fun h => h.numeral (hdigits ⟨out, h⟩), RegForm.tokens⟩

/-- A decimal digit in front. -/
theorem startsDigit_cons {c : Char} {d : Nat} (h : digitVal c = some d) (hd : d < 10) (t : CStr) :
    StartsDigit (c :: t) :=
  ⟨c, t, rfl, d, h, hd⟩

/-- Operands of each form: a value, a value and a mask, a port and a device, and a
register of a switch. -/
theorem operands_iff_forms :
    (mdioParseVal 16 (some "7".toList) false = .ok (7, 0) ∧
      ValForm Numeral 16 false "7".toList (7, 0)) ∧
    (mdioParseVal 16 (some "0x12/0xff00".toList) true = .ok (0x12, 0xff00) ∧
      ValForm Numeral 16 true "0x12/0xff00".toList (0x12, 0xff00)) ∧
    (mdioParseDev "3:0x1e".toList true = .ok 0x807e ∧ DevForm Numeral true "3:0x1e".toList 0x807e) ∧
    (mvlsParseReg (some "g1:010".toList) false = .ok (mvlsReg mvlsG1 8, 0) ∧
      RegForm Numeral "g1:010".toList (mvlsReg mvlsG1 8, 0)) := by
  have hvalue : DigitsFirst '/' "7".toList := by
    rw [DigitsFirst, operandParts_of_not_mem (by decide), List.forall_mem_singleton]
    exact startsDigit_cons rfl (by decide) _
  have hmask : DigitsFirst '/' ("0x12".toList ++ '/' :: "0xff00".toList) := by
    rw [DigitsFirst, operandParts_append (by decide), List.forall_mem_cons,
      List.forall_mem_singleton]
    exact ⟨startsDigit_cons rfl (by decide) _, startsDigit_cons rfl (by decide) _⟩
  have hdev : DigitsFirst ':' ("3".toList ++ ':' :: "0x1e".toList) := by
    rw [DigitsFirst, operandParts_append (by decide), List.forall_mem_cons,
      List.forall_mem_singleton]
    exact ⟨startsDigit_cons rfl (by decide) _, startsDigit_cons rfl (by decide) _⟩
  have hreg : RegDigitsFirst "g1:010".toList :=
    ⟨"g1".toList, "010".toList, rfl, by decide, by decide, .inl ⟨_, .g1⟩,
      startsDigit_cons rfl (by decide) _⟩
  have hvalueForm := ((operands_iff "7".toList).2.1 16 false (by decide)).mpr fun _ => hvalue
  have hmaskForm := ((operands_iff "0x12/0xff00".toList).2.1 16 true (by decide)).mpr fun _ => hmask
  have hdevForm := ((operands_iff "3:0x1e".toList).1 true).mpr fun _ => hdev
  have hregForm := (operands_iff "g1:010".toList).2.2.1.mpr fun _ => hreg
  exact ⟨⟨rfl, (hvalueForm _).mp rfl⟩, ⟨rfl, (hmaskForm _).mp rfl⟩, ⟨rfl, (hdevForm _).mp rfl⟩,
    rfl, (hregForm _).mp rfl⟩

theorem not_startsDigit_nil : ¬StartsDigit [] := by
  rintro ⟨c, t, h, -⟩
  cases h

theorem not_startsDigit_minus (s : CStr) : ¬StartsDigit ('-' :: s) := by
  rintro ⟨c, t, h, d, hd, -⟩
  cases h
  cases hd

/-- Strings that are accepted: nothing at all for the address 0, a number below 0
for the address 1, a mask behind white space and a sign without a value, and a
register with colons around its parts and something behind it. -/
theorem operands_slips :
    (mdioParseDev [] false = .ok 0 ∧ ¬DevForm Numeral false [] 0) ∧
    (mdioParseDev "-18446744073709551615".toList false = .ok 1 ∧
      ¬DevForm Numeral false "-18446744073709551615".toList 1) ∧
    (mdioParseVal 16 (some "/ +1".toList) true = .ok (0, 1) ∧
      ¬ValForm Numeral 16 true "/ +1".toList (0, 1)) ∧
    (mvlsParseReg (some ":1::2:3".toList) false = .ok (mvlsReg 1 2, 0) ∧
      ¬RegForm Numeral ":1::2:3".toList (mvlsReg 1 2, 0)) := by
  refine ⟨⟨rfl, ?_⟩, ⟨rfl, ?_⟩, ⟨rfl, ?_⟩, ⟨rfl, ?_⟩⟩
  · rintro ⟨a, ha, -⟩
    exact not_startsDigit_nil (ha.digitsFirst isNumeric_colon _ List.mem_cons_self)
  · rintro ⟨a, ha, -⟩
    exact not_startsDigit_minus _ (ha.digitsFirst isNumeric_colon _ List.mem_cons_self)
  · rintro ⟨a, ha, -⟩
    exact not_startsDigit_nil (ha.digitsFirst isNumeric_slash _ List.mem_cons_self)
  · intro h
    obtain ⟨s, t, hstr, hs, ht, -⟩ := h.digitsFirst
    have hcount := congrArg (List.count ':') hstr
    rw [List.count_append, List.count_cons_self, List.count_eq_zero.mpr hs,
      List.count_eq_zero.mpr ht] at hcount
    exact absurd hcount (by decide)

end MdioTools.Client
