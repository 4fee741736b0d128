import MdioTools.Library.CString

/-!
# The notation of integers in C

The notation of an unsigned integer that tells its base by a prefix, as a
grammar of strings apart from the scan that reads it: white space, a sign and a
decimal, octal or hexadecimal numeral.

Main results:

- Definitions {lit}`Numeral` and {lit}`Number`: the strings that write a number
  and the number they write.
- Theorem {lit}`strtoull_number`: the scan reads a number up to the first
  character behind it that is neither a digit nor a letter.
- Theorem {lit}`number_of_strtoull`: what the scan has read is a number.
- Theorem {lit}`strtoull_iff`: what the scan has read when it stops.
- Definition {lit}`Integer` and theorem {lit}`strtol_integer`: the same for
  integers with a sign.
-/

namespace MdioTools.Library

/-! ## The grammar -/

/-- The digits of a base. -/
def IsDigit (base : Nat) (c : Char) : Prop :=
  ∃ d, digitVal c = some d ∧ d < base

/-- The number that a string of digits writes. -/
def valueOf (base : Nat) (s : CStr) : Nat :=
  ofDigits base (s.filterMap digitVal)

/-- A numeral and the number it writes: decimal, octal behind `0`, or
hexadecimal behind `0x` or `0X`. -/
inductive Numeral : CStr → Nat → Prop
  | decimal {c : Char} {s : CStr} : c ≠ '0' → (∀ x ∈ c :: s, IsDigit 10 x) →
      Numeral (c :: s) (valueOf 10 (c :: s))
  | octal {s : CStr} : (∀ x ∈ s, IsDigit 8 x) → Numeral ('0' :: s) (valueOf 8 s)
  | hexadecimal {p x : Char} {s : CStr} : p = 'x' ∨ p = 'X' →
      (∀ y ∈ x :: s, IsDigit 16 y) → Numeral ('0' :: p :: x :: s) (valueOf 16 (x :: s))

/-- An optional sign, and whether it is a minus. -/
inductive Sign : CStr → Bool → Prop
  | none : Sign [] false
  | plus : Sign ['+'] false
  | minus : Sign ['-'] true

/-- A string that writes a number of `unsigned long long`, where a minus negates
in that type. -/
def Number (s : CStr) (n : BitVec 64) : Prop :=
  ∃ (space sign numeral : CStr) (neg : Bool) (m : Nat),
    s = space ++ sign ++ numeral ∧ (∀ c ∈ space, isSpace c) ∧ Sign sign neg ∧
      Numeral numeral m ∧ m < 2 ^ 64 ∧
      n = if neg then -BitVec.ofNat 64 m else BitVec.ofNat 64 m

/-- A string that writes an integer with a sign. -/
def Integer (s : CStr) (n : Int) : Prop :=
  ∃ (space sign numeral : CStr) (neg : Bool) (m : Nat),
    s = space ++ sign ++ numeral ∧ (∀ c ∈ space, isSpace c) ∧ Sign sign neg ∧
      Numeral numeral m ∧ n = if neg then -(m : Int) else m

/-! ## Digits -/

/-- A string that does not go on with a digit or a letter. -/
def EndsNumber (s : CStr) : Prop :=
  ∀ c ∈ s.head?, digitVal c = none

/-- A character that is no digit ends a number. -/
theorem endsNumber_cons {c : Char} {s : CStr} (h : digitVal c = none) : EndsNumber (c :: s) :=
  fun x hx => by cases hx; exact h

/-- A digit is no white space. -/
theorem IsDigit.not_isSpace {b : Nat} {c : Char} (h : IsDigit b c) : isSpace c = false := by
  obtain ⟨d, hd, -⟩ := h
  have hne : c ≠ ' ' := by
    rintro rfl
    cases hd
  have hrange : ¬(9 ≤ c.toNat ∧ c.toNat ≤ 13) := by
    rintro ⟨hlo, hhi⟩
    unfold digitVal at hd
    rw [if_neg (by omega), if_neg (by omega), if_neg (by omega)] at hd
    cases hd
  simp only [isSpace, hne, decide_false, Bool.false_or, ← Bool.decide_and, decide_eq_false_iff_not]
  exact hrange

/-- The digits of a base in front of a string are read, and no others. -/
theorem scanDigits_append_of {base : Nat} {s rest : CStr} (hs : ∀ c ∈ s, IsDigit base c)
    (hrest : EndsNumber rest) : scanDigits base (s ++ rest) = (s.filterMap digitVal, rest) := by
  induction s with
  | nil =>
      cases rest with
      | nil => rfl
      | cons c rest =>
          have hc : digitVal c = none := hrest c rfl
          simp [scanDigits, hc]
  | cons c s ih =>
      obtain ⟨d, hd, hlt⟩ := hs c List.mem_cons_self
      have hrec := ih fun x hx => hs x (List.mem_cons_of_mem _ hx)
      simp [scanDigits, hd, hlt, hrec]

/-- The string that was read as digits. -/
theorem exists_scanDigits (base : Nat) (s : CStr) :
    ∃ front, s = front ++ (scanDigits base s).2 ∧ (∀ c ∈ front, IsDigit base c) ∧
      (scanDigits base s).1 = front.filterMap digitVal := by
  induction s with
  | nil => exact ⟨[], rfl, by simp, rfl⟩
  | cons c s ih =>
      obtain ⟨front, hs, hfront, hvals⟩ := ih
      unfold scanDigits
      cases hc : digitVal c with
      | none => exact ⟨[], rfl, by simp, rfl⟩
      | some d =>
          by_cases hlt : d < base
          · simp only [if_pos hlt]
            refine ⟨c :: front, ?_, ?_, ?_⟩
            · rw [List.cons_append, ← hs]
            · intro x hx
              rcases List.mem_cons.mp hx with rfl | hx
              · exact ⟨d, hc, hlt⟩
              · exact hfront x hx
            · rw [List.filterMap_cons_some hc, hvals]
          · simp only [if_neg hlt]
            exact ⟨[], rfl, by simp, rfl⟩

/-- Digits have values. -/
theorem filterMap_ne_nil {base : Nat} {c : Char} {s : CStr} (h : ∀ x ∈ c :: s, IsDigit base x) :
    (c :: s).filterMap digitVal ≠ [] := by
  obtain ⟨d, hd, -⟩ := h c List.mem_cons_self
  rw [List.filterMap_cons_some hd]
  exact List.cons_ne_nil _ _

/-- A leading zero does not change the number. -/
theorem valueOf_zero_cons (base : Nat) (s : CStr) : valueOf base ('0' :: s) = valueOf base s := by
  have hzero : digitVal '0' = some 0 := rfl
  rw [valueOf, List.filterMap_cons_some hzero, ofDigits, List.foldl_cons]
  rfl

/-! ## The base of a numeral -/

/-- The hexadecimal marker is no digit of a smaller base. -/
theorem hexFollows_eq_false {s rest : CStr} (hs : ∀ c ∈ s, IsDigit 8 c)
    (hrest : EndsNumber rest) : hexFollows (s ++ rest) = false := by
  have hhead : ∀ c ∈ (s ++ rest).head?, c ≠ 'x' ∧ c ≠ 'X' := by
    intro c hc
    cases s with
    | nil =>
        have hnone := hrest c hc
        constructor <;> rintro rfl <;> cases hnone
    | cons d s =>
        obtain rfl : d = c := by simpa using hc
        obtain ⟨v, hv, hlt⟩ := hs d List.mem_cons_self
        constructor <;> rintro rfl <;> cases hv <;> exact absurd hlt (by decide)
  match hsr : s ++ rest with
  | [] => rfl
  | [_] => rfl
  | x :: c :: _ =>
      rw [hsr] at hhead
      obtain ⟨hlower, hupper⟩ := hhead x rfl
      simp [hexFollows, hlower, hupper]

/-- What `scanBase` and `scanDigits` make of a numeral with a rest behind it. -/
theorem scan_numeral {t rest : CStr} {m : Nat} (h : Numeral t m) (hrest : EndsNumber rest) :
    ∃ ds, scanDigits (scanBase (t ++ rest)).1 (scanBase (t ++ rest)).2 = (ds, rest) ∧
      ds ≠ [] ∧ ofDigits (scanBase (t ++ rest)).1 ds = m := by
  cases h with
  | @decimal c s hc hs =>
      have hbase : scanBase (c :: s ++ rest) = (10, c :: s ++ rest) := by
        simp [scanBase, hc]
      rw [hbase]
      exact ⟨_, scanDigits_append_of hs hrest, filterMap_ne_nil hs, rfl⟩
  | @octal s hs =>
      have hbase : scanBase ('0' :: s ++ rest) = (8, '0' :: s ++ rest) := by
        simp [scanBase, hexFollows_eq_false hs hrest]
      have hs' : ∀ c ∈ '0' :: s, IsDigit 8 c := by
        intro c hc
        rcases List.mem_cons.mp hc with rfl | hc
        · exact ⟨0, rfl, by decide⟩
        · exact hs c hc
      rw [hbase]
      exact ⟨_, scanDigits_append_of hs' hrest, filterMap_ne_nil hs', valueOf_zero_cons 8 s⟩
  | @hexadecimal p x s hp hs =>
      obtain ⟨d, hd, hlt⟩ := hs x List.mem_cons_self
      have hbase : scanBase ('0' :: p :: x :: s ++ rest) = (16, x :: s ++ rest) := by
        simp [scanBase, hexFollows, hp, hd, hlt]
      rw [hbase]
      exact ⟨_, scanDigits_append_of hs hrest, filterMap_ne_nil hs, rfl⟩

/-- The marker and the first digit of a hexadecimal numeral. -/
theorem exists_of_hexFollows {s : CStr} (h : hexFollows s) :
    ∃ p x u, s = p :: x :: u ∧ (p = 'x' ∨ p = 'X') ∧ IsDigit 16 x := by
  match s with
  | [] => simp [hexFollows] at h
  | [_] => simp [hexFollows] at h
  | p :: x :: u =>
      simp only [hexFollows, Bool.and_eq_true, Bool.or_eq_true, decide_eq_true_eq,
        Option.any_eq_true] at h
      obtain ⟨hp, d, hd, hlt⟩ := h
      exact ⟨p, x, u, rfl, hp, d, hd, hlt⟩

/-- What was read with at least one digit is a numeral. -/
theorem numeral_of_scan {s : CStr}
    (h : (scanDigits (scanBase s).1 (scanBase s).2).1 ≠ []) :
    ∃ t, s = t ++ (scanDigits (scanBase s).1 (scanBase s).2).2 ∧
      Numeral t (ofDigits (scanBase s).1 (scanDigits (scanBase s).1 (scanBase s).2).1) := by
  obtain ⟨front, hfront, hdigits, hvals⟩ := exists_scanDigits (scanBase s).1 (scanBase s).2
  rw [hvals] at h ⊢
  cases s with
  | nil => simp [scanBase, scanDigits] at hfront; simp [hfront] at h
  | cons c s =>
      cases front with
      | nil => exact absurd rfl h
      | cons x front =>
          by_cases hzero : c = '0'
          · subst hzero
            by_cases hhex : hexFollows s
            · obtain ⟨p, y, u, rfl, hp, -⟩ := exists_of_hexFollows hhex
              have hbase : scanBase ('0' :: p :: y :: u) = (16, y :: u) := by
                simp [scanBase, hhex]
              simp only [hbase] at hfront hdigits ⊢
              refine ⟨'0' :: p :: x :: front, ?_, .hexadecimal hp hdigits⟩
              rw [List.cons_append, List.cons_append, ← hfront]
            · have hbase : scanBase ('0' :: s) = (8, '0' :: s) := by
                simp [scanBase, hhex]
              simp only [hbase] at hfront hdigits ⊢
              have hx : '0' = x := (List.cons.inj hfront).1
              subst hx
              refine ⟨'0' :: front, hfront, ?_⟩
              have hnum := Numeral.octal fun y hy => hdigits y (List.mem_cons_of_mem _ hy)
              rwa [← valueOf_zero_cons] at hnum
          · have hbase : scanBase (c :: s) = (10, c :: s) := by
              simp [scanBase, hzero]
            simp only [hbase] at hfront hdigits ⊢
            have hx : c = x := (List.cons.inj hfront).1
            subst hx
            exact ⟨c :: front, hfront, .decimal hzero hdigits⟩

/-! ## The sign -/

/-- A numeral begins with a digit. -/
theorem Numeral.exists_head {t : CStr} {m : Nat} (h : Numeral t m) :
    ∃ c s, t = c :: s ∧ IsDigit 10 c := by
  cases h with
  | @decimal c s hc hs => exact ⟨c, s, rfl, hs c List.mem_cons_self⟩
  | @octal s hs => exact ⟨'0', s, rfl, 0, rfl, by decide⟩
  | @hexadecimal p x s hp hs => exact ⟨'0', _, rfl, 0, rfl, by decide⟩

/-- What `scanSign` makes of a sign with a digit behind it. -/
theorem scanSign_append_of {sign : CStr} {neg : Bool} (h : Sign sign neg) {b : Nat} {c : Char}
    (hc : IsDigit b c) (s : CStr) : scanSign (sign ++ c :: s) = (neg, c :: s) := by
  obtain ⟨d, hd, -⟩ := hc
  cases h with
  | none =>
      have hminus : c ≠ '-' := by
        rintro rfl
        cases hd
      have hplus : c ≠ '+' := by
        rintro rfl
        cases hd
      simp [scanSign, hminus, hplus]
  | plus => rfl
  | minus => rfl

/-- White space in front of a sign and a digit is skipped, and no more. -/
theorem dropWhile_space {space sign : CStr} {neg : Bool} (hspace : ∀ c ∈ space, isSpace c)
    (h : Sign sign neg) {b : Nat} {c : Char} (hc : IsDigit b c) (s : CStr) :
    (space ++ (sign ++ c :: s)).dropWhile isSpace = sign ++ c :: s := by
  have hhead : ∀ x ∈ (sign ++ c :: s).head?, isSpace x = false := by
    cases h with
    | none => exact fun x hx => by cases hx; exact hc.not_isSpace
    | plus => exact fun x hx => by cases hx; rfl
    | minus => exact fun x hx => by cases hx; rfl
  rw [List.dropWhile_append_of_pos hspace]
  cases hs : sign ++ c :: s with
  | nil => rfl
  | cons x u =>
      rw [hs] at hhead
      exact List.dropWhile_cons_of_neg (by simp [hhead x rfl])

/-- What is scanned as a sign is one. -/
theorem exists_scanSign (s : CStr) :
    ∃ sign, s = sign ++ (scanSign s).2 ∧ Sign sign (scanSign s).1 := by
  cases s with
  | nil => exact ⟨[], rfl, .none⟩
  | cons c s =>
      simp only [scanSign]
      split_ifs with hneg hpos
      · exact ⟨['-'], by rw [hneg]; rfl, .minus⟩
      · exact ⟨['+'], by rw [hpos]; rfl, .plus⟩
      · exact ⟨[], rfl, .none⟩

/-- A number has a character. -/
theorem Number.ne_nil {s : CStr} {n : BitVec 64} (h : Number s n) : s ≠ [] := by
  obtain ⟨space, sign, numeral, _, _, rfl, -, -, hnumeral, -⟩ := h
  obtain ⟨c, t, rfl, -⟩ := hnumeral.exists_head
  exact List.append_ne_nil_of_right_ne_nil _ (List.cons_ne_nil _ _)

/-! ## The scan -/

/-- The scan reads a number up to the first character behind it that is neither
a digit nor a letter. -/
theorem strtoull_number {s rest : CStr} {n : BitVec 64} (h : Number s n)
    (hrest : EndsNumber rest) : strtoull (s ++ rest) = ⟨n, rest, false⟩ := by
  obtain ⟨space, sign, numeral, neg, m, rfl, hspace, hsign, hnumeral, hm, rfl⟩ := h
  obtain ⟨c, t, ht, hc⟩ := hnumeral.exists_head
  obtain ⟨ds, hscan, hds, hval⟩ := scan_numeral hnumeral hrest
  have hdrop : (space ++ sign ++ numeral ++ rest).dropWhile isSpace =
      sign ++ (numeral ++ rest) := by
    rw [ht, List.append_assoc, List.append_assoc, List.cons_append]
    exact dropWhile_space hspace hsign hc _
  have hskip : scanSign (sign ++ (numeral ++ rest)) = (neg, numeral ++ rest) := by
    rw [ht]
    exact scanSign_append_of hsign hc _
  simp only [strtoull, hdrop, hskip, hscan, hds, if_false, hval, hm, if_true]

/-- With at least one digit the scan reads what stands in front of the rest as a
number, unless that is out of range. -/
theorem number_of_strtoull {s : CStr} (hrest : (strtoull s).rest ≠ s)
    (hrange : (strtoull s).range = false) :
    ∃ front, s = front ++ (strtoull s).rest ∧ Number front (strtoull s).value := by
  obtain ⟨sign, hsign, hneg⟩ := exists_scanSign (s.dropWhile isSpace)
  unfold strtoull at hrest hrange ⊢
  simp only at hrest hrange ⊢
  by_cases hds : (scanDigits (scanBase (scanSign (s.dropWhile isSpace)).2).1
      (scanBase (scanSign (s.dropWhile isSpace)).2).2).1 = []
  · rw [if_pos hds] at hrest
    exact absurd rfl hrest
  · rw [if_neg hds] at hrange ⊢
    obtain ⟨numeral, hnumeral, hval⟩ := numeral_of_scan hds
    split at hrange
    case isFalse => cases hrange
    case isTrue hlt =>
      rw [if_pos hlt]
      refine ⟨s.takeWhile isSpace ++ sign ++ numeral, ?_, _, sign, numeral, _, _, rfl,
        fun c hc => List.mem_takeWhile_imp hc, hneg, hval, hlt, rfl⟩
      rw [List.append_assoc _ numeral, ← hnumeral, List.append_assoc, ← hsign,
        List.takeWhile_append_dropWhile]

/-! ## What the scan reads -/

/-- What the scan takes for a number: nothing at all, or a number. -/
def Scanned (s : CStr) (n : Nat) : Prop :=
  s = [] ∧ n = 0 ∨ ∃ v : BitVec 64, Number s v ∧ v.toNat = n

/-- A string that begins with a digit. -/
def StartsDigit (s : CStr) : Prop :=
  ∃ c t, s = c :: t ∧ IsDigit 10 c

/-- A character that numbers do not have is no digit. -/
theorem digitVal_of_not_isNumeric {c : Char} (h : isNumeric c = false) : digitVal c = none := by
  simp only [isNumeric, Bool.or_eq_false_iff, Option.isSome_eq_false_iff, Option.isNone_iff_eq_none]
    at h
  exact h.2

/-- Numbers have digits. -/
theorem IsDigit.isNumeric {b : Nat} {c : Char} (h : IsDigit b c) : isNumeric c := by
  obtain ⟨d, hd, -⟩ := h
  simp [Library.isNumeric, hd]

/-- A numeral consists of the characters that numbers have. -/
theorem Numeral.isNumeric {s : CStr} {n : Nat} (h : Numeral s n) : ∀ c ∈ s, isNumeric c := by
  cases h with
  | decimal _ hs => exact fun c hc => (hs c hc).isNumeric
  | octal hs =>
      rw [List.forall_mem_cons]
      exact ⟨by decide, fun c hc => (hs c hc).isNumeric⟩
  | hexadecimal hp hs =>
      rw [List.forall_mem_cons, List.forall_mem_cons]
      refine ⟨by decide, ?_, fun c hc => (hs c hc).isNumeric⟩
      rcases hp with rfl | rfl <;> decide

/-- A numeral by itself is scanned as its value. -/
theorem Numeral.scanned {s : CStr} {n : Nat} (h : Numeral s n) (hn : n < 2 ^ 64) : Scanned s n := by
  refine Or.inr ⟨BitVec.ofNat 64 n, ⟨[], [], s, false, n, rfl, ?_, .none, h, hn, rfl⟩, ?_⟩
  · exact fun c hc => absurd hc List.not_mem_nil
  · rw [BitVec.toNat_ofNat, Nat.mod_eq_of_lt hn]

/-- What is scanned is a numeral if it begins with a digit. -/
theorem Scanned.numeral {s : CStr} {n : Nat} (h : Scanned s n) (hdigit : StartsDigit s) :
    Numeral s n := by
  obtain ⟨x, u, rfl, hx⟩ := hdigit
  rcases h with ⟨hnil, -⟩ |
    ⟨v, ⟨space, sign, numeral, neg, m, hs, hspace, hsign, hnum, hm, rfl⟩, rfl⟩
  · cases hnil
  · -- A digit is neither white space nor a sign.
    cases space with
    | cons y space =>
        obtain rfl : x = y := (List.cons.inj hs).1
        have hyes := hspace x List.mem_cons_self
        rw [hx.not_isSpace] at hyes
        cases hyes
    | nil =>
        cases hsign with
        | none =>
            rw [List.nil_append, List.nil_append] at hs
            rw [hs, if_neg Bool.false_ne_true, BitVec.toNat_ofNat, Nat.mod_eq_of_lt hm]
            exact hnum
        | plus =>
            obtain rfl : x = '+' := (List.cons.inj hs).1
            obtain ⟨d, hd, -⟩ := hx
            cases hd
        | minus =>
            obtain rfl : x = '-' := (List.cons.inj hs).1
            obtain ⟨d, hd, -⟩ := hx
            cases hd

/-- A numeral begins with a digit. -/
theorem Numeral.startsDigit {s : CStr} {n : Nat} (h : Numeral s n) : StartsDigit s :=
  h.exists_head

/-- A scan that stays where it starts has read nothing. -/
theorem strtoull_stuck {s : CStr} (h : (strtoull s).rest = s) : strtoull s = ⟨0, s, false⟩ := by
  by_cases hds : (scanDigits (scanBase (scanSign (s.dropWhile isSpace)).2).1
      (scanBase (scanSign (s.dropWhile isSpace)).2).2).1 = []
  · simp only [strtoull, hds, if_true]
  · obtain ⟨sign, hsign, -⟩ := exists_scanSign (s.dropWhile isSpace)
    obtain ⟨t, ht, hnum⟩ := numeral_of_scan hds
    obtain ⟨c, u, rfl, -⟩ := hnum.exists_head
    have hrest : (strtoull s).rest = (scanDigits (scanBase (scanSign (s.dropWhile isSpace)).2).1
        (scanBase (scanSign (s.dropWhile isSpace)).2).2).2 := by
      simp only [strtoull, hds, if_false]
      split <;> rfl
    have hlen := congrArg List.length (List.takeWhile_append_dropWhile (p := isSpace) (l := s))
    have hlen' := congrArg List.length hsign
    have hlen'' := congrArg List.length ht
    rw [← hrest, h] at hlen''
    simp only [List.length_append, List.length_cons] at hlen hlen' hlen''
    omega

/-- In front of a character that no number has, the scan reads nothing. -/
theorem strtoull_nothing {s : CStr} (h : ∀ c ∈ s.head?, isNumeric c = false) :
    strtoull s = ⟨0, s, false⟩ := by
  refine strtoull_stuck ?_
  obtain ⟨front, hs, hfront⟩ := strtoull_append s
  cases front with
  | nil => exact hs.symm
  | cons c front =>
      rw [hs] at h
      have hyes := hfront c List.mem_cons_self
      rw [h c rfl] at hyes
      cases hyes

/-- Out of range the value is the largest. -/
theorem strtoull_of_range {s : CStr} (h : (strtoull s).range = true) :
    (strtoull s).value = BitVec.allOnes 64 := by
  simp only [strtoull] at h ⊢
  split_ifs at h ⊢
  rfl

/-- The scan stops in front of a character that no number has exactly when it has
scanned all that comes before. -/
theorem strtoull_iff {s rest : CStr} {n : Nat} (hrest : ∀ c ∈ rest.head?, isNumeric c = false)
    (hn : n < 2 ^ 64 - 1) :
    (strtoull s).rest = rest ∧ (strtoull s).value.toNat = n ↔
      ∃ front, s = front ++ rest ∧ Scanned front n := by
  constructor
  · rintro ⟨rfl, rfl⟩
    by_cases hstuck : (strtoull s).rest = s
    · refine ⟨[], hstuck.symm, Or.inl ⟨rfl, ?_⟩⟩
      rw [strtoull_stuck hstuck]
      rfl
    · have hrange : (strtoull s).range = false := by
        by_contra hrange
        rw [strtoull_of_range (Bool.not_eq_false _ ▸ hrange)] at hn
        exact absurd hn (by decide)
      obtain ⟨front, hs, hnum⟩ := number_of_strtoull hstuck hrange
      exact ⟨front, hs, Or.inr ⟨_, hnum, rfl⟩⟩
  · rintro ⟨front, rfl, ⟨rfl, rfl⟩ | ⟨v, hnum, rfl⟩⟩
    · rw [List.nil_append, strtoull_nothing hrest]
      exact ⟨rfl, rfl⟩
    · rw [strtoull_number hnum fun c hc => digitVal_of_not_isNumeric (hrest c hc)]
      exact ⟨rfl, rfl⟩

/-! ## Integers with a sign -/

/-- An integer in front of a character that is neither a digit nor a letter is
read as itself, or as the bound of the type. -/
theorem strtol_integer {s rest : CStr} {n : Int} (h : Integer s n) (hrest : EndsNumber rest) :
    strtol (s ++ rest) = max (min n (2 ^ 63 - 1)) (-2 ^ 63) := by
  obtain ⟨space, sign, numeral, neg, m, rfl, hspace, hsign, hnumeral, rfl⟩ := h
  obtain ⟨c, t, ht, hc⟩ := hnumeral.exists_head
  obtain ⟨ds, hscan, -, hval⟩ := scan_numeral hnumeral hrest
  have hdrop : (space ++ sign ++ numeral ++ rest).dropWhile isSpace =
      sign ++ (numeral ++ rest) := by
    rw [ht, List.append_assoc, List.append_assoc, List.cons_append]
    exact dropWhile_space hspace hsign hc _
  have hskip : scanSign (sign ++ (numeral ++ rest)) = (neg, numeral ++ rest) := by
    rw [ht]
    exact scanSign_append_of hsign hc _
  simp only [strtol, hdrop, hskip, hscan, hval]
  cases neg <;> simp

/-- A string that writes an integer begins with white space, a sign or a
digit. -/
theorem Integer.exists_head {s : CStr} {n : Int} (h : Integer s n) :
    ∃ c t, s = c :: t ∧ (isSpace c ∨ c = '+' ∨ c = '-' ∨ IsDigit 10 c) := by
  obtain ⟨space, sign, numeral, neg, m, rfl, hspace, hsign, hnumeral, -⟩ := h
  obtain ⟨c, t, rfl, hc⟩ := hnumeral.exists_head
  cases space with
  | cons x space => exact ⟨x, _, rfl, .inl (hspace x List.mem_cons_self)⟩
  | nil =>
      cases hsign with
      | none => exact ⟨c, t, rfl, .inr (.inr (.inr hc))⟩
      | plus => exact ⟨'+', c :: t, rfl, .inr (.inl rfl)⟩
      | minus => exact ⟨'-', c :: t, rfl, .inr (.inr (.inl rfl))⟩

end MdioTools.Library
