import MdioTools.Client.Parse
import MdioTools.Library.Numeral

/-!
# The strings that name a range of registers

A range is a register, the first and the last register with a minus between,
or the first register and a length with a plus between.  The client reads it
with two scans, and checks after the first one only that the scan has ended
where it should.

Main results:

- Definition {lit}`NamesRange`: the strings that name a range within the bound
  of a device, and the range they name.
- Theorem {lit}`mdioParseRange_of_namesRange`: each such string is read as the
  range it names.
- Theorem {lit}`mdioParseRange_exact_iff`: the strings on which nothing else
  happens.
-/

namespace MdioTools.Client

open Kernel Library

/-! ## What a string names -/

/-- A string that names the registers from the first to the last of a range,
none of them beyond the bound of the device. -/
inductive NamesRange (max : BitVec 32) : CStr → BitVec 32 × BitVec 32 → Prop
  | register {s : CStr} {n : BitVec 64} : Number s n → n.toNat ≤ max.toNat →
      NamesRange max s (.ofNat 32 n.toNat, .ofNat 32 n.toNat)
  | upTo {s t : CStr} {n m : BitVec 64} : Number s n → Number t m → n.toNat ≤ max.toNat →
      m.toNat ≤ max.toNat →
      NamesRange max (s ++ '-' :: t) (.ofNat 32 n.toNat, .ofNat 32 m.toNat)
  | length {s t : CStr} {n l : BitVec 64} : Number s n → Number t l → n.toNat ≤ max.toNat →
      n.toNat + l.toNat ≤ max.toNat →
      NamesRange max (s ++ '+' :: t) (.ofNat 32 n.toNat, .ofNat 32 (n.toNat + l.toNat))

/-- The end of a range with a separator, in the width of the type. -/
def rangeEnd (c : Char) (n m : BitVec 64) : Nat :=
  (m.toNat + if c = '+' then n.toNat else 0) % 2 ^ 64

/-- Both ends of a range with a separator are within the bound. -/
def WithinBound (max : BitVec 32) (str : CStr) (c : Char) (after : CStr) : Prop :=
  (strtoull str).range = false ∧ (strtoull after).range = false ∧
    (strtoull str).value.toNat ≤ max.toNat ∧
    rangeEnd c (strtoull str).value (strtoull after).value ≤ max.toNat

instance (max : BitVec 32) (str : CStr) (c : Char) (after : CStr) :
    Decidable (WithinBound max str c after) :=
  inferInstanceAs (Decidable (_ ∧ _ ∧ _ ∧ _))

/-- The strings that are accepted though they name no range: the empty string,
and a range within the bound that has no first number, no second number,
characters behind the second number or a length past the end of the type. -/
def RangeSlip (max : BitVec 32) (str : CStr) : Prop :=
  str = [] ∨ ∃ c after, (strtoull str).rest = c :: after ∧ (c = '+' ∨ c = '-') ∧
    WithinBound max str c after ∧
    ((strtoull str).rest = str ∨ after = [] ∨ (strtoull after).rest ≠ [] ∨
      c = '+' ∧ 2 ^ 64 ≤ (strtoull str).value.toNat + (strtoull after).value.toNat)

/-! ## What is read -/

/-- A range is accepted if both its ends are at most the maximum. -/
theorem checkRange_ok_iff {max : BitVec 32} {rs re : BitVec 64} {range : BitVec 32 × BitVec 32} :
    checkRange max rs re = .ok range ↔ rs.toNat ≤ max.toNat ∧ re.toNat ≤ max.toNat ∧
      range = (.ofNat 32 rs.toNat, .ofNat 32 re.toNat) := by
  have hrs : rs.setWidth 32 = .ofNat 32 rs.toNat := BitVec.eq_of_toNat_eq (by simp)
  have hre : re.setWidth 32 = .ofNat 32 re.toNat := BitVec.eq_of_toNat_eq (by simp)
  unfold checkRange
  simp only [hrs, hre]
  split_ifs with hs he
  · simp only [false_iff]
    omega
  · simp only [false_iff]
    omega
  · simp only [Except.ok.injEq]
    constructor
    · exact fun h => ⟨by omega, by omega, h.symm⟩
    · exact fun h => h.2.2.symm

/-- The end of a range, in the arithmetic of 64 bits. -/
theorem toNat_rangeEnd (c : Char) (n m : BitVec 64) :
    (m + if c = '+' then n else 0).toNat = rangeEnd c n m := by
  rw [rangeEnd, BitVec.toNat_add]
  split_ifs <;> rfl

/-- What the client accepts, and the range it returns. -/
theorem mdioParseRange_ok_iff {max : BitVec 32} {str : CStr} {range : BitVec 32 × BitVec 32} :
    mdioParseRange max str true = .ok range ↔
      ((strtoull str).rest = [] ∧ (strtoull str).range = false ∧
        (strtoull str).value.toNat ≤ max.toNat ∧
        range = (.ofNat 32 (strtoull str).value.toNat, .ofNat 32 (strtoull str).value.toNat)) ∨
      ∃ c after, (strtoull str).rest = c :: after ∧ (c = '+' ∨ c = '-') ∧
        WithinBound max str c after ∧
        range = (.ofNat 32 (strtoull str).value.toNat,
          .ofNat 32 (rangeEnd c (strtoull str).value (strtoull after).value)) := by
  unfold mdioParseRange WithinBound
  simp only
  cases hrange : (strtoull str).range with
  | true => simp
  | false =>
      cases hrest : (strtoull str).rest with
      | nil => simp [checkRange_ok_iff]
      | cons c after =>
          by_cases hc : c = '+' ∨ c = '-'
          · cases hrange' : (strtoull after).range with
            | true => simp [hc, hrange']
            | false =>
                simp only [hc, if_true, hrange', Bool.false_eq_true, if_false, Bool.not_true,
                  checkRange_ok_iff, toNat_rangeEnd]
                simp [hc, hrange', and_assoc]
          · simp [hc]

/-- A separator ends a number. -/
theorem endsNumber_separator {c : Char} (hc : c = '+' ∨ c = '-') (s : CStr) :
    EndsNumber (c :: s) :=
  endsNumber_cons (by rcases hc with rfl | rfl <;> rfl)

/-- A number is scanned whole. -/
theorem strtoull_of_number {s : CStr} {n : BitVec 64} (h : Number s n) :
    strtoull s = ⟨n, [], false⟩ := by
  have hend : EndsNumber [] := fun c hc => by cases hc
  have hscan := strtoull_number h hend
  rwa [List.append_nil] at hscan

/-! ## What is named and what is read -/

theorem rangeEnd_minus (n m : BitVec 64) : rangeEnd '-' n m = m.toNat := by
  rw [rangeEnd, if_neg (by decide), Nat.add_zero, Nat.mod_eq_of_lt m.isLt]

/-- A length that does not overflow. -/
theorem rangeEnd_plus {n m : BitVec 64} (h : n.toNat + m.toNat < 2 ^ 64) :
    rangeEnd '+' n m = n.toNat + m.toNat := by
  rw [rangeEnd, if_pos rfl, Nat.add_comm, Nat.mod_eq_of_lt h]

/-- A string that names a range is read as that range. -/
theorem mdioParseRange_of_namesRange {max : BitVec 32} {str : CStr}
    {range : BitVec 32 × BitVec 32} (h : NamesRange max str range) :
    mdioParseRange max str true = .ok range := by
  have hmax := max.isLt
  rw [mdioParseRange_ok_iff]
  cases h with
  | @register s n hs hn =>
      left
      rw [strtoull_of_number hs]
      exact ⟨rfl, rfl, hn, rfl⟩
  | @upTo s t n m hs ht hn hm =>
      right
      refine ⟨'-', t, ?_⟩
      rw [WithinBound, strtoull_number hs (endsNumber_separator (.inr rfl) t),
        strtoull_of_number ht, rangeEnd_minus]
      exact ⟨rfl, .inr rfl, ⟨rfl, rfl, hn, hm⟩, rfl⟩
  | @length s t n l hs ht hn hl =>
      have hwrap : n.toNat + l.toNat < 2 ^ 64 := by omega
      right
      refine ⟨'+', t, ?_⟩
      rw [WithinBound, strtoull_number hs (endsNumber_separator (.inl rfl) t),
        strtoull_of_number ht, rangeEnd_plus hwrap]
      exact ⟨rfl, .inl rfl, ⟨rfl, rfl, hn, hl⟩, rfl⟩

/-- What is accepted and is none of the slips names the range that is returned. -/
theorem namesRange_of_ok {max : BitVec 32} {str : CStr} {range : BitVec 32 × BitVec 32}
    (hok : mdioParseRange max str true = .ok range) (hslip : ¬RangeSlip max str) :
    NamesRange max str range := by
  rcases mdioParseRange_ok_iff.mp hok with
    ⟨hrest, hrange, hn, rfl⟩ | ⟨c, after, hrest, hc, hbound, rfl⟩
  · have hne : str ≠ [] := fun h => hslip (.inl h)
    obtain ⟨s, hs, hnum⟩ := number_of_strtoull (by rw [hrest]; exact hne.symm) hrange
    obtain rfl : str = s := by simpa [hrest] using hs
    exact .register hnum hn
  · have hsound : ∀ {P : Prop}, (P → (strtoull str).rest = str ∨ after = [] ∨
        (strtoull after).rest ≠ [] ∨
        c = '+' ∧ 2 ^ 64 ≤ (strtoull str).value.toNat + (strtoull after).value.toNat) → ¬P :=
      fun himp hP => hslip (.inr ⟨c, after, hrest, hc, hbound, himp hP⟩)
    have hfirst : (strtoull str).rest ≠ str := hsound .inl
    have hafter : after ≠ [] := hsound fun h => .inr (.inl h)
    have hend : (strtoull after).rest = [] := not_not.mp (hsound fun h => .inr (.inr (.inl h)))
    obtain ⟨hrange, hrange', hn, hlast⟩ := hbound
    obtain ⟨s, hs, hsnum⟩ := number_of_strtoull hfirst hrange
    obtain ⟨t, ht, htnum⟩ := number_of_strtoull (by rw [hend]; exact hafter.symm) hrange'
    obtain rfl : after = t := by simpa [hend] using ht
    rw [hrest] at hs
    generalize strtoull str = first at *
    subst hs
    rcases hc with rfl | rfl
    · have hwrap : first.value.toNat + (strtoull after).value.toNat < 2 ^ 64 :=
        Nat.not_le.mp (hsound fun h => .inr (.inr (.inr ⟨rfl, h⟩)))
      rw [rangeEnd_plus hwrap] at hlast ⊢
      exact .length hsnum htnum hn hlast
    · rw [rangeEnd_minus] at hlast ⊢
      exact .upTo hsnum htnum hn hlast

/-- A slip is accepted. -/
theorem RangeSlip.accepted {max : BitVec 32} {str : CStr} (h : RangeSlip max str) :
    ∃ range, mdioParseRange max str true = .ok range := by
  simp only [mdioParseRange_ok_iff]
  rcases h with rfl | ⟨c, after, hrest, hc, hbound, -⟩
  · exact ⟨_, .inl ⟨rfl, rfl, Nat.zero_le _, rfl⟩⟩
  · exact ⟨_, .inr ⟨c, after, hrest, hc, hbound, rfl⟩⟩

/-- A slip names no range. -/
theorem RangeSlip.not_namesRange {max : BitVec 32} {str : CStr} (h : RangeSlip max str)
    (range : BitVec 32 × BitVec 32) : ¬NamesRange max str range := by
  have hmax := max.isLt
  intro hnames
  cases hnames with
  | @register s n hs hn =>
      rcases h with rfl | ⟨c, after, hrest, -⟩
      · exact hs.ne_nil rfl
      · rw [strtoull_of_number hs] at hrest
        cases hrest
  | @upTo s t n m hs ht hn hm =>
      rcases h with h | ⟨c, after, hrest, -, -, h⟩
      · simp at h
      · rw [strtoull_number hs (endsNumber_separator (.inr rfl) t)] at hrest h
        cases hrest
        rw [strtoull_of_number ht] at h
        rcases h with h | h | h | ⟨h, -⟩
        · exact hs.ne_nil (by simpa using h.symm)
        · exact ht.ne_nil h
        · exact h rfl
        · cases h
  | @length s t n l hs ht hn hl =>
      rcases h with h | ⟨c, after, hrest, -, -, h⟩
      · simp at h
      · rw [strtoull_number hs (endsNumber_separator (.inl rfl) t)] at hrest h
        cases hrest
        rw [strtoull_of_number ht] at h
        rcases h with h | h | h | ⟨-, h⟩
        · exact hs.ne_nil (by simpa using h.symm)
        · exact ht.ne_nil h
        · exact h rfl
        · simp only at h
          omega

/-- The client returns exactly the range that a string names, and an error on
every string that names none, if and only if the string is none of the slips. -/
theorem mdioParseRange_exact_iff (max : BitVec 32) (str : CStr) :
    (∀ range, mdioParseRange max str true = .ok range ↔ NamesRange max str range) ↔
      ¬RangeSlip max str := by
  constructor
  · intro hexact hslip
    obtain ⟨range, hok⟩ := hslip.accepted
    exact hslip.not_namesRange range ((hexact range).mp hok)
  · intro hslip range
    exact ⟨fun hok => namesRange_of_ok hok hslip, mdioParseRange_of_namesRange⟩

/-- Characters behind the second number are not looked at. -/
theorem mdioParseRange_trailing : ¬∀ (max : BitVec 32) (str : CStr) (range : BitVec 32 × BitVec 32),
    mdioParseRange max str true = .ok range ↔ NamesRange max str range := by
  intro hexact
  have hslip : RangeSlip 31 "5-7x".toList :=
    .inr ⟨'-', "7x".toList, by decide, by decide, by decide, by decide⟩
  obtain ⟨range, hok⟩ := hslip.accepted
  exact hslip.not_namesRange range ((hexact 31 _ range).mp hok)

end MdioTools.Client
