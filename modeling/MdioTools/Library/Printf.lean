import MdioTools.Library.CString

/-!
# Formatted output

The conversions of {lit}`printf` that the programs use: decimal and hexadecimal
numbers, and fields of a least width.  What they print is said without them, too:
a number with a fixed number of hexadecimal digits, and a column that shows a
number.

Main results:

- Theorems {lit}`padLeft_hex` and {lit}`hexField_padLeft`: a hexadecimal number that
  is filled up with zeros has so many digits, or as many as it needs.
- Theorem {lit}`column_padLeft_dec`: a decimal number in a field is a column that
  shows it.
-/

namespace MdioTools.Library

/-- `%u`. -/
def dec (n : Nat) : CStr :=
  Nat.toDigits 10 n

/-- `%x`. -/
def hex (n : Nat) : CStr :=
  Nat.toDigits 16 n

/-- `%d`. -/
def decInt (i : Int) : CStr :=
  if i < 0 then '-' :: dec i.natAbs else dec i.natAbs

/-- A field of a least width, filled up on the left. -/
def padLeft (width : Nat) (fill : Char) (s : CStr) : CStr :=
  List.replicate (width - s.length) fill ++ s

/-- A field of a least width, filled up on the right. -/
def padRight (width : Nat) (fill : Char) (s : CStr) : CStr :=
  s ++ List.replicate (width - s.length) fill

/-! ## Digits -/

/-- The last `w` hexadecimal digits of a number. -/
def hexDigits : Nat → Nat → CStr
  | 0, _ => []
  | w + 1, n => hexDigits w (n / 16) ++ [Nat.digitChar (n % 16)]

@[simp]
theorem hexDigits_length (w n : Nat) : (hexDigits w n).length = w := by
  induction w generalizing n with
  | zero => rfl
  | succ w ih => rw [hexDigits, List.length_append, ih, List.length_singleton]

/-- A digit is added behind the others. -/
theorem padLeft_succ_append (width : Nat) (fill : Char) (s : CStr) (c : Char) :
    padLeft (width + 1) fill (s ++ [c]) = padLeft width fill s ++ [c] := by
  rw [padLeft, padLeft, List.length_append, List.length_singleton, Nat.add_sub_add_right,
    List.append_assoc]

/-- A number filled up with zeros. -/
theorem padLeft_hex {w n : Nat} (hw : 0 < w) (hn : n < 16 ^ w) :
    padLeft w '0' (hex n) = hexDigits w n := by
  induction w generalizing n with
  | zero => omega
  | succ w ih =>
      by_cases hw' : w = 0
      · subst hw'
        rw [Nat.pow_one] at hn
        rw [hex, Nat.toDigits_of_lt_base hn, hexDigits, hexDigits, Nat.mod_eq_of_lt hn]
        rfl
      have hpos : 0 < w := Nat.pos_of_ne_zero hw'
      have hrest := ih hpos (Nat.div_lt_of_lt_mul (by rwa [Nat.pow_succ, Nat.mul_comm] at hn))
      rw [hexDigits, ← hrest]
      by_cases hlt : n < 16
      · -- the digits in front of a single one are zeros
        rw [hex, hex, Nat.toDigits_of_lt_base hlt, Nat.div_eq_of_lt hlt, Nat.toDigits_zero,
          Nat.mod_eq_of_lt hlt, padLeft, padLeft, List.length_singleton, List.length_singleton,
          ← List.replicate_succ', Nat.sub_add_cancel hpos]
        rfl
      · rw [hex, hex, Nat.toDigits_of_base_le (by decide) (Nat.not_lt.mp hlt), padLeft_succ_append]

/-- The digits of two numbers one behind the other. -/
theorem hexDigits_append (v w a : Nat) {b : Nat} (hb : b < 16 ^ w) :
    hexDigits (v + w) (a * 16 ^ w + b) = hexDigits v a ++ hexDigits w b := by
  induction w generalizing b with
  | zero =>
      obtain rfl : b = 0 := by simpa using hb
      simp [hexDigits]
  | succ w ih =>
      have hfront : (a * 16 ^ (w + 1) + b) / 16 = a * 16 ^ w + b / 16 := by
        rw [Nat.pow_succ, ← Nat.mul_assoc]
        omega
      have hlast : (a * 16 ^ (w + 1) + b) % 16 = b % 16 := by
        rw [Nat.pow_succ, ← Nat.mul_assoc]
        omega
      have hrest := ih (b := b / 16) (Nat.div_lt_of_lt_mul (by rwa [Nat.pow_succ, Nat.mul_comm] at hb))
      rw [← Nat.add_assoc, hexDigits, hfront, hlast, hrest, hexDigits, List.append_assoc]

/-- A number is shown in hexadecimal digits: in a least number of them, or in as many
as it needs. -/
def HexField (width n : Nat) (s : CStr) : Prop :=
  ∃ w, width ≤ w ∧ n < 16 ^ w ∧ (width < w → 16 ^ (w - 1) ≤ n) ∧ s = hexDigits w n

/-- A hexadecimal number in a field that is filled up with zeros. -/
theorem hexField_padLeft {width : Nat} (hwidth : 0 < width) (n : Nat) :
    HexField width n (padLeft width '0' (hex n)) := by
  by_cases hfits : n < 16 ^ width
  · exact ⟨width, le_refl _, hfits, fun h => absurd h (lt_irrefl _), padLeft_hex hwidth hfits⟩
  -- a longer number is not filled up
  have hlong : width < (hex n).length := by
    by_contra hle
    exact hfits ((Nat.length_toDigits_le_iff (by decide) hwidth).mp (Nat.not_lt.mp hle))
  have hlt : n < 16 ^ (hex n).length :=
    (Nat.length_toDigits_le_iff (by decide) (by omega)).mp (le_refl (hex n).length)
  refine ⟨(hex n).length, hlong.le, hlt, fun _ => ?_, ?_⟩
  · by_contra hsmall
    have hshort : (hex n).length ≤ (hex n).length - 1 :=
      (Nat.length_toDigits_le_iff (by decide) (by omega)).mpr (Nat.not_le.mp hsmall)
    omega
  · rw [← padLeft_hex (by omega) hlt, padLeft, padLeft, Nat.sub_self, Nat.sub_eq_zero_of_le hlong.le]

/-- A hexadecimal number. -/
theorem hexField_hex (n : Nat) : HexField 1 n (hex n) := by
  have hpos : 0 < (hex n).length := List.length_pos_iff.mpr Nat.toDigits_ne_nil
  have hfield := hexField_padLeft (show 0 < 1 by decide) n
  rwa [padLeft, Nat.sub_eq_zero_of_le hpos, List.replicate_zero, List.nil_append] at hfield

/-! ## Columns -/

/-- A column of a table shows a number: some spaces and its decimal digits, in
a field of a least width. -/
def Column (width n : Nat) (s : CStr) : Prop :=
  ∃ spaces digits, s = List.replicate spaces ' ' ++ digits ∧ spaces = width - digits.length ∧
    digits ≠ [] ∧ (∀ c ∈ digits, c.isDigit) ∧ Nat.ofDigitChars 10 digits 0 = n

/-- A decimal number in a field. -/
theorem column_padLeft_dec (width n : Nat) : Column width n (padLeft width ' ' (dec n)) :=
  ⟨_, _, rfl, rfl, Nat.toDigits_ne_nil,
    fun _ hc => Nat.isDigit_of_mem_toDigits (by decide) (by decide) hc,
    Nat.ofDigitChars_ten_toDigits⟩

/-- What a column shows. -/
theorem Column.value {width n : Nat} {s : CStr} (h : Column width n s) :
    Nat.ofDigitChars 10 (s.dropWhile (· == ' ')) 0 = n := by
  obtain ⟨spaces, digits, rfl, -, hne, hdigits, hvalue⟩ := h
  have hspaces : (List.replicate spaces ' ' ++ digits).dropWhile (· == ' ') =
      digits.dropWhile (· == ' ') :=
    List.dropWhile_append_of_pos fun c hc => by simp [List.eq_of_mem_replicate hc]
  obtain ⟨c, rest, rfl⟩ := List.exists_cons_of_ne_nil hne
  have hc : c ≠ ' ' := by
    rintro rfl
    exact absurd (hdigits ' ' List.mem_cons_self) (by decide)
  rw [hspaces, List.dropWhile_cons_of_neg (by simpa using hc), hvalue]

/-- A column ends with a digit. -/
theorem Column.getLast {width n : Nat} {s : CStr} (h : Column width n s) :
    ∃ c, s.getLast? = some c ∧ c.isDigit := by
  obtain ⟨spaces, digits, rfl, -, hne, hdigits, -⟩ := h
  exact ⟨digits.getLast hne, by simp [List.getLast?_append, List.getLast?_eq_some_getLast hne],
    hdigits _ (List.getLast_mem hne)⟩

/-- A decimal number that fits its field fills it. -/
theorem padLeft_dec_length {width n : Nat} (hwidth : 0 < width) (hn : n < 10 ^ width) :
    (padLeft width ' ' (dec n)).length = width := by
  have hlen : (dec n).length ≤ width := (Nat.length_toDigits_le_iff (by decide) hwidth).mpr hn
  rw [padLeft, List.length_append, List.length_replicate, Nat.sub_add_cancel hlen]

end MdioTools.Library
