import Mathlib.Data.List.Chain
import MdioTools.Library.Printf

/-!
# JSON texts

A JSON text is UTF-8, and it is made of punctuation, literals, numbers and
strings with blanks between them.  The characters of a text are its bytes.  This
module has the grammar, and it tells when the tokens of a text that has been
printed without escapes are read back.

Main results:

- Definition {lit}`IsJson`: the texts of a value.
- Theorem {lit}`isJson_text`: tokens whose strings are plain are a text.
- Theorem {lit}`isJson_text_iff`: the strings of other tokens are not read back.
-/

namespace MdioTools.Library

/-! ## Values and their tokens -/

/-- A JSON value; a number is given by its text. -/
inductive Json
  | null
  | bool (b : Bool)
  | num (text : CStr)
  | str (s : CStr)
  | arr (items : List Json)
  | obj (members : List (CStr × Json))

/-- The parts of a text. -/
inductive JsonToken
  | blank
  | punct (c : Char)
  | null
  | bool (b : Bool)
  | num (text : CStr)
  | str (s : CStr)
deriving DecidableEq

/-- The tokens of a value. -/
def Json.tokens : Json → List JsonToken
  | .null => [.null]
  | .bool b => [.bool b]
  | .num text => [.num text]
  | .str s => [.str s]
  | .arr items =>
      [.punct '['] ++ [JsonToken.punct ','].intercalate (items.map tokens) ++ [.punct ']']
  | .obj members =>
      [.punct '{'] ++ [JsonToken.punct ','].intercalate
        (members.map fun m => [.str m.1, .punct ':'] ++ tokens m.2) ++ [.punct '}']
decreasing_by
  · have hlt := List.sizeOf_lt_of_mem ‹_ ∈ items›
    simp only [Json.arr.sizeOf_spec]
    omega
  · have hlt := List.sizeOf_lt_of_mem ‹m ∈ members›
    obtain ⟨key, value⟩ := m
    simp only [Prod.mk.sizeOf_spec, Json.obj.sizeOf_spec] at hlt ⊢
    omega

/-- The string of a token that is one. -/
def JsonToken.str? : JsonToken → Option CStr
  | .str s => some s
  | _ => none

/-- The strings of tokens, in order. -/
def tokenStrings (toks : List JsonToken) : List CStr :=
  toks.filterMap JsonToken.str?

/-- The strings of a value in order, the names of its members among them. -/
def Json.strings (v : Json) : List CStr :=
  tokenStrings v.tokens

/-! ## The grammar -/

/-- The bytes of a character. -/
def utf8 (c : Char) : CStr :=
  (String.utf8EncodeChar c).map fun b => Char.ofNat b.toNat

/-- The bytes are those of some characters. -/
def IsUtf8 (s : CStr) : Prop :=
  ∃ chars : List Char, s = chars.flatMap utf8

/-- A character that stands for itself in a string. -/
def IsPlainChar (c : Char) : Prop :=
  c ≠ '"' ∧ c ≠ '\\' ∧ 0x20 ≤ c.toNat

instance (c : Char) : Decidable (IsPlainChar c) :=
  inferInstanceAs (Decidable (_ ∧ _ ∧ _))

/-- Four hexadecimal digits and their value. -/
def IsHex4 (ds : CStr) (n : Nat) : Prop :=
  ds.length = 4 ∧ ∃ vs, ds.mapM digitVal = some vs ∧ (∀ v ∈ vs, v < 16) ∧ n = ofDigits 16 vs

/-- The escapes of one character. -/
def escapeChars : List (Char × Char) :=
  [('"', '"'), ('\\', '\\'), ('/', '/'), ('b', '\x08'), ('f', '\x0c'), ('n', '\n'), ('r', '\r'),
    ('t', '\t')]

/-- What stands behind a backslash, and the bytes it means. -/
inductive IsEscape : CStr → CStr → Prop
  | char {c d : Char} (h : (c, d) ∈ escapeChars) : IsEscape [c] [d]
  | unicode {ds : CStr} {n : Nat} (h : IsHex4 ds n) (hn : n.isValidChar) :
      IsEscape ('u' :: ds) (utf8 (Char.ofNat n))
  | pair {hi lo : CStr} {n k : Nat} (hhi : IsHex4 hi n) (hlo : IsHex4 lo k)
      (hn : 0xd800 ≤ n ∧ n < 0xdc00) (hk : 0xdc00 ≤ k ∧ k < 0xe000) :
      IsEscape ('u' :: hi ++ '\\' :: 'u' :: lo)
        (utf8 (Char.ofNat (0x10000 + (n - 0xd800) * 0x400 + (k - 0xdc00))))

/-- What stands between quotes, and the bytes it means. -/
inductive IsChars : CStr → CStr → Prop
  | nil : IsChars [] []
  | char {c : Char} {raw s : CStr} (hc : IsPlainChar c) (h : IsChars raw s) :
      IsChars (c :: raw) (c :: s)
  | escape {front d raw s : CStr} (hescape : IsEscape front d) (h : IsChars raw s) :
      IsChars ('\\' :: front ++ raw) (d ++ s)

/-- One digit or more. -/
def IsDigits (t : CStr) : Prop :=
  t ≠ [] ∧ ∀ c ∈ t, c.isDigit

/-- The parts of a number: the integer has no zero in front, and fraction and
exponent may be missing. -/
def IsInt (t : CStr) : Prop :=
  t = ['0'] ∨ IsDigits t ∧ t.head? ≠ some '0'

def IsFrac (t : CStr) : Prop :=
  t = [] ∨ ∃ ds, t = '.' :: ds ∧ IsDigits ds

def IsExp (t : CStr) : Prop :=
  t = [] ∨ ∃ e ∈ ['e', 'E'], ∃ sign ∈ [[], ['+'], ['-']], ∃ ds, t = e :: sign ++ ds ∧ IsDigits ds

/-- The text of a number. -/
def IsNumber (t : CStr) : Prop :=
  ∃ sign ∈ [[], ['-']], ∃ int frac exp, t = sign ++ int ++ frac ++ exp ∧ IsInt int ∧
    IsFrac frac ∧ IsExp exp

/-- The texts of a token. -/
inductive IsLexeme : CStr → JsonToken → Prop
  | blank {c : Char} (h : c ∈ [' ', '\t', '\n', '\r']) : IsLexeme [c] .blank
  | punct {c : Char} (h : c ∈ ['{', '}', '[', ']', ':', ',']) : IsLexeme [c] (.punct c)
  | litNull : IsLexeme ['n', 'u', 'l', 'l'] .null
  | litTrue : IsLexeme ['t', 'r', 'u', 'e'] (.bool true)
  | litFalse : IsLexeme ['f', 'a', 'l', 's', 'e'] (.bool false)
  | num {t : CStr} (h : IsNumber t) : IsLexeme t (.num t)
  | str {raw s : CStr} (h : IsChars raw s) : IsLexeme ('"' :: raw ++ ['"']) (.str s)

/-- A text is made of tokens. -/
inductive Lexes : CStr → List JsonToken → Prop
  | nil : Lexes [] []
  | cons {lexeme rest : CStr} {tok : JsonToken} {toks : List JsonToken}
      (h : IsLexeme lexeme tok) (hrest : Lexes rest toks) : Lexes (lexeme ++ rest) (tok :: toks)

/-- A text is one of a value: it is made of the tokens of the value, and of
blanks. -/
def IsJson (text : CStr) (v : Json) : Prop :=
  IsUtf8 text ∧ ∃ toks, Lexes text toks ∧ toks.filter (· ≠ .blank) = v.tokens

/-! ## UTF-8 -/

/-- A byte as a character keeps its number. -/
theorem byte_toNat (b : UInt8) : (Char.ofNat b.toNat).toNat = b.toNat := by
  have hlt := b.toNat_lt
  have hvalid : b.toNat.isValidChar := Or.inl (by omega)
  rw [Char.ofNat, dif_pos hvalid]
  rfl

/-- The bytes of a character are itself, or none of them is a character of
ASCII. -/
theorem utf8_ascii_or (c : Char) : utf8 c = [c] ∨ ∀ b ∈ utf8 c, 0x80 ≤ b.toNat := by
  have hbyte (n : Nat) (h : 0x80 ≤ n % 256) : 0x80 ≤ (Char.ofNat (UInt8.ofNat n).toNat).toNat := by
    rwa [byte_toNat, UInt8.toNat_ofNat']
  unfold utf8
  fun_cases String.utf8EncodeChar with
  | case1 v h =>
      left
      have hnat : (UInt8.ofNat v).toNat = c.toNat := by
        rw [UInt8.toNat_ofNat']
        exact Nat.mod_eq_of_lt (Nat.lt_of_le_of_lt h (by decide))
      rw [List.map_singleton, hnat, Char.ofNat_toNat]
  | case2 v _ _ | case3 v _ _ _ | case4 v _ _ _ =>
      right
      simp only [List.map_cons, List.map_nil, List.forall_mem_cons, List.not_mem_nil, false_implies,
        implies_true, and_true]
      repeat' constructor
      all_goals exact hbyte _ (by omega)

/-- A character takes at most four bytes. -/
theorem utf8_length_le (c : Char) : (utf8 c).length ≤ 4 := by
  rw [utf8, List.length_map, String.length_utf8EncodeChar]
  exact c.utf8Size_le_four

theorem IsUtf8.nil : IsUtf8 [] :=
  ⟨[], rfl⟩

/-- Encodings are put one after another. -/
theorem IsUtf8.append {s t : CStr} (hs : IsUtf8 s) (ht : IsUtf8 t) : IsUtf8 (s ++ t) := by
  obtain ⟨chars, rfl⟩ := hs
  obtain ⟨chars', rfl⟩ := ht
  exact ⟨chars ++ chars', List.flatMap_append.symm⟩

/-- An ASCII character is its own encoding. -/
theorem isUtf8_ascii {c : Char} (h : c.toNat < 0x80) : IsUtf8 [c] := by
  refine ⟨[c], ?_⟩
  rw [List.flatMap_singleton, utf8]
  have hle : c.val.toNat ≤ 0x7f := Nat.le_of_lt_succ h
  have hnat : (UInt8.ofNat c.val.toNat).toNat = c.toNat := by
    rw [UInt8.toNat_ofNat']
    exact Nat.mod_eq_of_lt (Nat.lt_trans h (by decide))
  simp only [String.utf8EncodeChar, hle, if_true, List.map_singleton, hnat, Char.ofNat_toNat]

/-- A character of ASCII parts a text. -/
theorem IsUtf8.split {c : Char} (hc : c.toNat < 0x80) {s t : CStr} (h : IsUtf8 (s ++ c :: t)) :
    IsUtf8 s ∧ IsUtf8 t := by
  obtain ⟨chars, h⟩ := h
  induction chars generalizing s with
  | nil => simp at h
  | cons x chars ih =>
      rw [List.flatMap_cons] at h
      rcases List.append_eq_append_iff.mp h with ⟨a, hfront, hrest⟩ | ⟨a, hs, hrest⟩
      · -- the character is in the first of the text, or right behind it
        cases a with
        | nil =>
            rw [List.append_nil] at hfront
            have hnext := ih (s := []) hrest
            exact ⟨⟨[x], by rw [List.flatMap_singleton, hfront]⟩, hnext.2⟩
        | cons y a =>
            obtain ⟨rfl, ht⟩ := List.cons.inj hrest
            have hone : utf8 x = [x] := (utf8_ascii_or x).resolve_right fun hall => by
              have hge := hall c (by rw [hfront]; simp)
              omega
            rw [hone] at hfront
            cases s with
            | nil =>
                obtain ⟨-, rfl⟩ := List.cons.inj hfront
                exact ⟨IsUtf8.nil, chars, ht⟩
            | cons z s => simp at hfront
      · obtain ⟨hfront, ht⟩ := ih hrest.symm
        rw [hs]
        exact ⟨IsUtf8.append ⟨[x], by rw [List.flatMap_singleton]⟩ hfront, ht⟩

/-- A text is cut at an ASCII character. -/
theorem isUtf8_split_iff {c : Char} (hc : c.toNat < 0x80) (s t : CStr) :
    IsUtf8 (s ++ c :: t) ↔ IsUtf8 s ∧ IsUtf8 t :=
  ⟨IsUtf8.split hc, fun ⟨hs, ht⟩ => hs.append ((isUtf8_ascii hc).append ht)⟩

/-- A string of ASCII. -/
def isAscii (s : CStr) : Bool :=
  s.all fun c => c.toNat < 0x80

/-- Characters of ASCII in front of a text do not matter. -/
theorem isUtf8_ascii_append_iff {s : CStr} (hs : isAscii s) (t : CStr) :
    IsUtf8 (s ++ t) ↔ IsUtf8 t := by
  induction s with
  | nil => rfl
  | cons c s ih =>
      rw [isAscii, List.all_cons, Bool.and_eq_true, decide_eq_true_eq] at hs
      have hsplit := isUtf8_split_iff hs.1 [] (s ++ t)
      rw [List.nil_append] at hsplit
      rw [List.cons_append, hsplit, ih hs.2]
      exact and_iff_right IsUtf8.nil

/-! ## Strings -/

/-- A string that can be printed as it is. -/
def IsPlain (s : CStr) : Prop :=
  ∀ c ∈ s, IsPlainChar c

/-- Plain characters stand for themselves. -/
theorem IsChars.plain {s : CStr} (h : IsPlain s) : IsChars s s := by
  induction s with
  | nil => exact .nil
  | cons c s ih =>
      exact .char (h c List.mem_cons_self) (ih fun d hd => h d (List.mem_cons_of_mem _ hd))

/-- There is no quote among hexadecimal digits. -/
theorem IsHex4.no_quote {ds : CStr} {n : Nat} (h : IsHex4 ds n) : ds.count '"' = 0 := by
  obtain ⟨-, vs, hvs, -⟩ := h
  rw [List.count_eq_zero]
  intro hmem
  obtain ⟨front, back, rfl⟩ := List.append_of_mem hmem
  have hquote : digitVal '"' = none := by decide
  simp [hquote] at hvs

/-- An escape means less bytes than it has, and a quote in it means one. -/
theorem IsEscape.bound {front d : CStr} (h : IsEscape front d) :
    d.length ≤ front.length ∧ front.count '"' ≤ d.count '"' := by
  have hlength (c : Char) := utf8_length_le c
  cases h with
  | char h =>
      refine ⟨Nat.le_refl _, ?_⟩
      simp only [escapeChars, List.mem_cons, Prod.mk.injEq, List.not_mem_nil, or_false] at h
      rcases h with ⟨rfl, rfl⟩ | ⟨rfl, rfl⟩ | ⟨rfl, rfl⟩ | ⟨rfl, rfl⟩ | ⟨rfl, rfl⟩ | ⟨rfl, rfl⟩ |
        ⟨rfl, rfl⟩ | ⟨rfl, rfl⟩ <;> decide
  | unicode h hn =>
      constructor
      · rw [List.length_cons, h.1]
        exact (hlength _).trans (by decide)
      · rw [List.count_cons_of_ne (by decide), h.no_quote]
        exact Nat.zero_le _
  | pair hhi hlo _ _ =>
      constructor
      · rw [List.length_append, List.length_cons, List.length_cons, List.length_cons, hhi.1, hlo.1]
        exact (hlength _).trans (by decide)
      · rw [List.count_append, List.count_cons_of_ne (by decide), List.count_cons_of_ne (by decide),
          List.count_cons_of_ne (by decide), hhi.no_quote, hlo.no_quote]
        exact Nat.zero_le _

/-- Every quote in a string means one. -/
theorem IsChars.count_le {raw s : CStr} (h : IsChars raw s) : raw.count '"' ≤ s.count '"' := by
  induction h with
  | nil => exact Nat.le_refl _
  | char hc _ ih => rwa [List.count_cons_of_ne hc.1, List.count_cons_of_ne hc.1]
  | escape hescape _ ih =>
      have hfront := hescape.bound.2
      rw [List.cons_append, List.count_cons_of_ne (by decide), List.count_append, List.count_append]
      omega

/-- A string that means as many bytes as it has is plain. -/
theorem IsChars.plain_or_lt {raw s : CStr} (h : IsChars raw s) :
    raw = s ∧ IsPlain s ∨ s.length < raw.length := by
  induction h with
  | nil => exact Or.inl ⟨rfl, fun _ h => nomatch h⟩
  | char hc _ ih =>
      refine ih.imp ?_ ?_
      · rintro ⟨rfl, hplain⟩
        exact ⟨rfl, List.forall_mem_cons.mpr ⟨hc, hplain⟩⟩
      · exact Nat.succ_lt_succ
  | @escape front d raw s hescape _ ih =>
      right
      have hfront := hescape.bound.1
      have hraw : s.length ≤ raw.length := by
        rcases ih with ⟨rfl, -⟩ | hlt
        · exact Nat.le_refl _
        · exact Nat.le_of_lt hlt
      rw [List.cons_append, List.length_cons, List.length_append, List.length_append]
      omega

/-- A string that has been printed as it is, and is read back with the meaning it
was printed for, ends where it was ended and is plain. -/
theorem IsChars.eq_of_printed {raw s rest rest' : CStr} (h : IsChars raw s)
    (heq : s ++ '"' :: rest = raw ++ '"' :: rest') : IsPlain s ∧ rest = rest' := by
  have hsame (hraw : raw = s) : IsPlain s ∧ rest = rest' := by
    subst hraw
    rw [List.append_cancel_left_eq, List.cons.injEq] at heq
    exact ⟨(h.plain_or_lt.resolve_right (Nat.lt_irrefl _)).2, heq.2⟩
  have hcount := h.count_le
  rcases List.append_eq_append_iff.mp heq with ⟨a, hraw, hrest⟩ | ⟨a, hs, -⟩
  · cases a with
    | nil => exact hsame (by rw [hraw, List.append_nil])
    | cons c a =>
        -- a quote that was printed as the end is in the string, and means one more
        obtain ⟨rfl, -⟩ := List.cons.inj hrest
        rw [hraw, List.count_append, List.count_cons_self] at hcount
        omega
  · rcases h.plain_or_lt with ⟨hplain, -⟩ | hlt
    · exact hsame hplain
    · rw [hs, List.length_append] at hlt
      omega

/-! ## Numbers -/

/-- The characters that a number can have. -/
def isNumberChar (c : Char) : Bool :=
  c.isDigit || c ∈ ['-', '+', '.', 'e', 'E']

/-- No blank belongs to a number. -/
theorem blank_not_number {c : Char} (h : c ∈ [' ', '\t', '\n', '\r']) :
    isNumberChar c = false := by
  simp only [List.mem_cons, List.not_mem_nil, or_false] at h
  rcases h with rfl | rfl | rfl | rfl <;> rfl

/-- No punctuation belongs to a number. -/
theorem punct_not_number {c : Char} (h : c ∈ ['{', '}', '[', ']', ':', ',']) :
    isNumberChar c = false := by
  simp only [List.mem_cons, List.not_mem_nil, or_false] at h
  rcases h with rfl | rfl | rfl | rfl | rfl | rfl <;> rfl

/-- No blank is punctuation. -/
theorem blank_not_punct {c : Char} (h : c ∈ [' ', '\t', '\n', '\r']) :
    c ∉ ['{', '}', '[', ']', ':', ','] := by
  simp only [List.mem_cons, List.not_mem_nil, or_false] at h
  rcases h with rfl | rfl | rfl | rfl <;> decide

/-- Digits belong to a number. -/
theorem IsDigits.numberChar {t : CStr} (h : IsDigits t) : ∀ c ∈ t, isNumberChar c := by
  intro c hc
  simp [isNumberChar, h.2 c hc]

/-- A number has a character. -/
theorem IsNumber.ne_nil {t : CStr} (h : IsNumber t) : t ≠ [] := by
  obtain ⟨sign, -, int, frac, exp, rfl, hint, -⟩ := h
  have hne : int ≠ [] := by
    rcases hint with rfl | ⟨hdigits, -⟩
    · decide
    · exact hdigits.1
  simp [hne]

/-- All characters of a number belong to numbers. -/
theorem IsNumber.numberChar {t : CStr} (h : IsNumber t) : ∀ c ∈ t, isNumberChar c := by
  obtain ⟨sign, hsign, int, frac, exp, rfl, hint, hfrac, hexp⟩ := h
  simp only [List.forall_mem_append]
  refine ⟨⟨⟨?_, ?_⟩, ?_⟩, ?_⟩
  · simp only [List.mem_cons, List.not_mem_nil, or_false] at hsign
    rcases hsign with rfl | rfl <;> exact List.all_eq_true.mp rfl
  · rcases hint with rfl | ⟨hdigits, -⟩
    · exact List.all_eq_true.mp rfl
    · exact hdigits.numberChar
  · rcases hfrac with rfl | ⟨ds, rfl, hdigits⟩
    · exact fun _ h => nomatch h
    · exact List.forall_mem_cons.mpr ⟨rfl, hdigits.numberChar⟩
  · rcases hexp with rfl | ⟨e, he, sign, hsign, ds, rfl, hdigits⟩
    · exact fun _ h => nomatch h
    · rw [List.cons_append, List.forall_mem_cons, List.forall_mem_append]
      simp only [List.mem_cons, List.not_mem_nil, or_false] at he hsign
      refine ⟨?_, ?_, hdigits.numberChar⟩
      · rcases he with rfl | rfl <;> rfl
      · rcases hsign with rfl | rfl | rfl <;> exact List.all_eq_true.mp rfl

/-- Decimal numbers have no zero in front. -/
theorem dec_head {n : Nat} (h : 0 < n) : (dec n).head? ≠ some '0' := by
  induction n using Nat.strongRecOn with
  | ind n ih =>
    have hsmall : ∀ k < 10, 0 < k → some k.digitChar ≠ some '0' := by decide
    by_cases hlt : n < 10
    · rw [dec, Nat.toDigits_of_lt_base hlt, List.head?_cons]
      exact hsmall n hlt h
    · have hrest := ih (n / 10) (by omega) (by omega)
      obtain ⟨c, ds, hds⟩ := List.exists_cons_of_ne_nil (Nat.toDigits_ne_nil (n := n / 10) (b := 10))
      rw [dec, hds] at hrest
      rwa [dec, Nat.toDigits_of_base_le (by decide) (Nat.not_lt.mp hlt), hds]

/-- Decimal text consists of digits. -/
theorem isDigits_dec (n : Nat) : IsDigits (dec n) :=
  ⟨Nat.toDigits_ne_nil, fun _ hc => Nat.isDigit_of_mem_toDigits (by decide) (by decide) hc⟩

/-- Decimal text has no leading zero. -/
theorem isInt_dec (n : Nat) : IsInt (dec n) := by
  rcases Nat.eq_zero_or_pos n with rfl | hpos
  · exact Or.inl (Nat.toDigits_zero 10)
  · exact Or.inr ⟨isDigits_dec n, dec_head hpos⟩

/-- A natural number in decimal is a number. -/
theorem isNumber_dec (n : Nat) : IsNumber (dec n) :=
  ⟨[], by decide, dec n, [], [], by simp, isInt_dec n, Or.inl rfl, Or.inl rfl⟩

/-- An integer in decimal is a number. -/
theorem isNumber_decInt (i : Int) : IsNumber (decInt i) := by
  rw [decInt]
  split_ifs
  · exact ⟨['-'], by decide, dec i.natAbs, [], [], by simp, isInt_dec _, Or.inl rfl, Or.inl rfl⟩
  · exact isNumber_dec _

/-! ## Printed tokens -/

/-- A token as it is printed, a string as it is. -/
def JsonToken.text : JsonToken → CStr
  | .blank => [' ']
  | .punct c => [c]
  | .null => ['n', 'u', 'l', 'l']
  | .bool true => ['t', 'r', 'u', 'e']
  | .bool false => ['f', 'a', 'l', 's', 'e']
  | .num t => t
  | .str s => '"' :: s ++ ['"']

/-- Tokens printed one after another. -/
def tokensText (toks : List JsonToken) : CStr :=
  toks.flatMap JsonToken.text

/-- A token that is one wherever strings are plain. -/
def JsonToken.Valid : JsonToken → Prop
  | .punct c => c ∈ ['{', '}', '[', ']', ':', ',']
  | .num t => IsNumber t
  | _ => True

/-- The six characters of punctuation. -/
@[simp]
theorem JsonToken.punct_valid (c : Char) :
    (punct c).Valid ↔ c ∈ ['{', '}', '[', ']', ':', ','] :=
  Iff.rfl

def JsonToken.isNum : JsonToken → Bool
  | .num _ => true
  | _ => false

/-- Valid tokens without a number behind a number. -/
structure Printable (toks : List JsonToken) : Prop where
  valid : ∀ tok ∈ toks, tok.Valid
  spaced : toks.IsChain fun tok next => tok.isNum = true → next.isNum = false

/-- What is printed behind a token is printable by itself. -/
theorem Printable.tail {tok : JsonToken} {toks : List JsonToken} (h : Printable (tok :: toks)) :
    Printable toks := by
  refine ⟨fun t ht => h.valid t (List.mem_cons_of_mem _ ht), ?_⟩
  cases toks with
  | nil => exact .nil
  | cons next toks => exact (List.isChain_cons_cons.mp h.spaced).2

/-- Only a number begins with a character of numbers. -/
theorem JsonToken.text_head {tok : JsonToken} (hvalid : tok.Valid) (hnum : tok.isNum = false) :
    ∃ c t, tok.text = c :: t ∧ isNumberChar c = false := by
  cases tok with
  | punct c => exact ⟨c, [], rfl, punct_not_number hvalid⟩
  | num t => cases hnum
  | bool b => cases b <;> exact ⟨_, _, rfl, by decide⟩
  | blank | null | str s => exact ⟨_, _, rfl, by decide⟩

/-- A number ends where the next token starts. -/
theorem Printable.head {tok : JsonToken} {toks : List JsonToken} (h : Printable (tok :: toks))
    (hnum : tok.isNum = true) : ∀ c ∈ (tokensText toks).head?, isNumberChar c = false := by
  cases toks with
  | nil => exact fun _ h => nomatch h
  | cons next toks =>
      have hnext := (List.isChain_cons_cons.mp h.spaced).1 hnum
      obtain ⟨c, t, htext, hc⟩ := JsonToken.text_head (h.valid next (by simp)) hnext
      intro d hd
      rw [tokensText, List.flatMap_cons, htext] at hd
      cases hd
      exact hc

theorem tokensText_cons (tok : JsonToken) (toks : List JsonToken) :
    tokensText (tok :: toks) = tok.text ++ tokensText toks :=
  List.flatMap_cons

theorem tokensText_append (toks toks' : List JsonToken) :
    tokensText (toks ++ toks') = tokensText toks ++ tokensText toks' :=
  List.flatMap_append

/-- The token of a string. -/
theorem JsonToken.eq_str {tok : JsonToken} {s : CStr} (h : tok.str? = some s) : tok = .str s := by
  cases tok with
  | str t => exact congrArg _ (Option.some.inj h)
  | _ => cases h

/-- A valid token that is no string is the lexeme it is printed as. -/
theorem JsonToken.lexeme {tok : JsonToken} (hvalid : tok.Valid) (hstr : tok.str? = none) :
    IsLexeme tok.text tok := by
  cases tok with
  | blank => exact .blank (by decide)
  | punct c => exact .punct hvalid
  | null => exact .litNull
  | bool b =>
      cases b with
      | false => exact .litFalse
      | true => exact .litTrue
  | num t => exact .num hvalid
  | str s => cases hstr

/-- Tokens with plain strings are those of their text. -/
theorem lexes_text {toks : List JsonToken} (hvalid : ∀ tok ∈ toks, tok.Valid)
    (hplain : ∀ s, JsonToken.str s ∈ toks → IsPlain s) : Lexes (tokensText toks) toks := by
  induction toks with
  | nil => exact .nil
  | cons tok toks ih =>
      have hrest := ih (fun t ht => hvalid t (List.mem_cons_of_mem _ ht))
        fun s hs => hplain s (List.mem_cons_of_mem _ hs)
      have htok := hvalid tok List.mem_cons_self
      rw [tokensText_cons]
      refine .cons ?_ hrest
      cases hstr : tok.str? with
      | none => exact JsonToken.lexeme htok hstr
      | some s =>
          obtain rfl := JsonToken.eq_str hstr
          exact .str (IsChars.plain (hplain s List.mem_cons_self))

/-- The text of a token that is no string is of ASCII. -/
theorem JsonToken.text_ascii {tok : JsonToken} (h : tok.Valid) (hstr : tok.str? = none) :
    isAscii tok.text := by
  cases tok with
  | blank | null => rfl
  | punct c =>
      simp only [punct_valid, List.mem_cons, List.not_mem_nil, or_false] at h
      rcases h with rfl | rfl | rfl | rfl | rfl | rfl <;> rfl
  | bool b => cases b <;> rfl
  | num t =>
      refine List.all_eq_true.mpr fun c hc => decide_eq_true ?_
      have hnum := h.numberChar c hc
      simp only [isNumberChar, Bool.or_eq_true, decide_eq_true_eq, List.mem_cons, List.not_mem_nil,
        or_false] at hnum
      rcases hnum with hdigit | rfl | rfl | rfl | rfl | rfl
      · exact Nat.lt_of_le_of_lt (Char.isDigit_iff_toNat.mp hdigit).2 (by decide)
      all_goals decide
  | str s => cases hstr

/-- A text is UTF-8 where the strings in it are. -/
theorem isUtf8_text_iff {toks : List JsonToken} (hvalid : ∀ tok ∈ toks, tok.Valid) :
    IsUtf8 (tokensText toks) ↔ ∀ s, JsonToken.str s ∈ toks → IsUtf8 s := by
  induction toks with
  | nil => simpa [tokensText] using IsUtf8.nil
  | cons tok toks ih =>
      have hrest := ih fun t ht => hvalid t (List.mem_cons_of_mem _ ht)
      rw [tokensText_cons]
      cases hstr : tok.str? with
      | none =>
          rw [isUtf8_ascii_append_iff
            (JsonToken.text_ascii (hvalid tok List.mem_cons_self) hstr), hrest]
          refine forall_congr' fun s => imp_congr_left ?_
          rw [List.mem_cons, or_iff_right]
          rintro rfl
          cases hstr
      | some s =>
          obtain rfl := JsonToken.eq_str hstr
          have hquote : '"'.toNat < 0x80 := by decide
          have hsplit := isUtf8_split_iff hquote [] (s ++ '"' :: tokensText toks)
          rw [JsonToken.text, List.cons_append, List.cons_append, List.append_assoc,
            List.singleton_append]
          rw [List.nil_append, isUtf8_split_iff hquote, hrest] at hsplit
          rw [hsplit]
          simp only [List.mem_cons, JsonToken.str.injEq]
          constructor
          · rintro ⟨-, hs, hall⟩ t (rfl | ht)
            · exact hs
            · exact hall t ht
          · exact fun hall => ⟨IsUtf8.nil, hall s (Or.inl rfl), fun t ht => hall t (Or.inr ht)⟩

/-! ## Reading printed tokens back -/

/-- A lexeme has a character. -/
theorem IsLexeme.ne_nil {lexeme : CStr} {tok : JsonToken} (h : IsLexeme lexeme tok) :
    lexeme ≠ [] := by
  cases h with
  | num h => exact h.ne_nil
  | _ => simp

/-- The first token of a text. -/
theorem Lexes.head {c : Char} {text : CStr} {toks : List JsonToken} (h : Lexes (c :: text) toks) :
    ∃ lexeme tok rest toks', IsLexeme (c :: lexeme) tok ∧ text = lexeme ++ rest ∧
      Lexes rest toks' ∧ toks = tok :: toks' := by
  generalize hwhole : c :: text = whole at h
  cases h with
  | nil => cases hwhole
  | @cons lexeme rest tok toks hlex hrest =>
      cases lexeme with
      | nil => exact absurd rfl hlex.ne_nil
      | cons d lexeme =>
          obtain ⟨rfl, rfl⟩ := List.cons.inj hwhole
          exact ⟨lexeme, tok, rest, toks, hlex, rfl, hrest, rfl⟩

/-- Behind number characters up to the end of them, a text has the tokens it has
by itself, and no string in front. -/
theorem Lexes.peel_num {t rest : CStr} {toks : List JsonToken} (ht : ∀ c ∈ t, isNumberChar c)
    (hrest : ∀ c ∈ rest.head?, isNumberChar c = false) (h : Lexes (t ++ rest) toks) :
    ∃ toks', Lexes rest toks' ∧ tokenStrings toks = tokenStrings toks' := by
  induction hn : t.length using Nat.strongRecOn generalizing t toks with
  | ind n ih =>
    subst hn
    cases t with
    | nil => exact ⟨toks, h, rfl⟩
    | cons c t =>
        obtain ⟨lexeme, tok, rest', toks', hlex, heq, htoks, rfl⟩ := h.head
        have hc := ht c List.mem_cons_self
        -- only a number starts with such a character
        obtain ⟨hnum, rfl⟩ : IsNumber (c :: lexeme) ∧ tok = .num (c :: lexeme) := by
          cases hlex with
          | num hnum => exact ⟨hnum, rfl⟩
          | blank hmem => exact absurd hc (Bool.eq_false_iff.mp (blank_not_number hmem))
          | punct hmem => exact absurd hc (Bool.eq_false_iff.mp (punct_not_number hmem))
          | litNull | litTrue | litFalse | str _ => cases hc
        rcases List.append_eq_append_iff.mp heq with ⟨a, hlexeme, hrest'⟩ | ⟨a, ht', hrest'⟩
        · cases a with
          | nil => exact ⟨toks', by rwa [hrest'], rfl⟩
          | cons d a =>
              have hd : isNumberChar d := hnum.numberChar d (by rw [hlexeme]; simp)
              have hd' := hrest d (by rw [hrest']; rfl)
              rw [hd] at hd'
              cases hd'
        · rw [hrest'] at htoks
          have hlt : a.length < (c :: t).length := by
            rw [ht', List.length_cons, List.length_append]
            omega
          have ha : ∀ d ∈ a, isNumberChar d := by
            intro d hd
            exact ht d (by rw [ht']; simp [hd])
          obtain ⟨toks'', hlexes, hstrings⟩ := ih a.length hlt ha htoks rfl
          exact ⟨toks'', hlexes, hstrings⟩

/-- Blanks, punctuation and literals are told from other tokens by their first
character. -/
theorem IsLexeme.eq_of_head {c : Char} {t lexeme : CStr} {tok tok' : JsonToken}
    (h : IsLexeme (c :: t) tok) (hnum : tok.isNum = false) (hstr : tok.str? = none)
    (h' : IsLexeme (c :: lexeme) tok') : tok' = tok ∧ lexeme = t := by
  cases h with
  | blank hmem =>
      cases h' with
      | blank _ => exact ⟨rfl, rfl⟩
      | punct hmem' => exact absurd hmem' (blank_not_punct hmem)
      | num h =>
          exact absurd (h.numberChar c List.mem_cons_self)
            (Bool.eq_false_iff.mp (blank_not_number hmem))
      | litNull | litTrue | litFalse | str _ => exact absurd hmem (by decide)
  | punct hmem =>
      cases h' with
      | punct _ => exact ⟨rfl, rfl⟩
      | blank hmem' => exact absurd hmem (blank_not_punct hmem')
      | num h =>
          exact absurd (h.numberChar c List.mem_cons_self)
            (Bool.eq_false_iff.mp (punct_not_number hmem))
      | litNull | litTrue | litFalse | str _ => exact absurd hmem (by decide)
  | litNull =>
      cases h' with
      | litNull => exact ⟨rfl, rfl⟩
      | blank hmem | punct hmem => exact absurd hmem (by decide)
      | num h => exact absurd (h.numberChar _ List.mem_cons_self) (by decide)
  | litTrue =>
      cases h' with
      | litTrue => exact ⟨rfl, rfl⟩
      | blank hmem | punct hmem => exact absurd hmem (by decide)
      | num h => exact absurd (h.numberChar _ List.mem_cons_self) (by decide)
  | litFalse =>
      cases h' with
      | litFalse => exact ⟨rfl, rfl⟩
      | blank hmem | punct hmem => exact absurd hmem (by decide)
      | num h => exact absurd (h.numberChar _ List.mem_cons_self) (by decide)
  | num h => cases hnum
  | str h => cases hstr

/-- The tokens behind one that is no string. -/
theorem Lexes.peel {tok : JsonToken} {rest : CStr} {toks : List JsonToken} (hvalid : tok.Valid)
    (hstr : tok.str? = none)
    (hrest : tok.isNum = true → ∀ c ∈ rest.head?, isNumberChar c = false)
    (h : Lexes (tok.text ++ rest) toks) :
    ∃ toks', Lexes rest toks' ∧ tokenStrings toks = tokenStrings toks' := by
  cases hnum : tok.isNum with
  | true =>
      cases tok with
      | num t => exact peel_num hvalid.numberChar (hrest hnum) h
      | _ => cases hnum
  | false =>
      have hlexeme : IsLexeme tok.text tok := JsonToken.lexeme hvalid hstr
      obtain ⟨c, t, htext⟩ := List.exists_cons_of_ne_nil hlexeme.ne_nil
      rw [htext] at h hlexeme
      obtain ⟨lexeme, tok', rest', toks', hlex, heq, htoks, rfl⟩ := h.head
      obtain ⟨rfl, rfl⟩ := hlexeme.eq_of_head hnum hstr hlex
      obtain rfl : rest = rest' := List.append_cancel_left heq
      exact ⟨toks', htoks, List.filterMap_cons_none hstr⟩

/-- The tokens behind a string, if it is read back. -/
theorem Lexes.peel_str {s rest : CStr} {toks : List JsonToken}
    (h : Lexes (JsonToken.text (.str s) ++ rest) toks) :
    ∃ d toks', tokenStrings toks = d :: tokenStrings toks' ∧
      (d = s → IsPlain s ∧ Lexes rest toks') := by
  rw [JsonToken.text, List.cons_append, List.cons_append, List.append_assoc,
    List.singleton_append] at h
  obtain ⟨lexeme, tok, rest', toks', hlex, heq, htoks, rfl⟩ := h.head
  cases hlex with
  | blank hmem | punct hmem => exact absurd hmem (by decide)
  | num hnum => exact absurd (hnum.numberChar _ List.mem_cons_self) (by decide)
  | @str raw d hchars =>
      refine ⟨d, toks', rfl, ?_⟩
      rintro rfl
      change d ++ '"' :: rest = raw ++ ['"'] ++ rest' at heq
      rw [List.append_assoc, List.singleton_append] at heq
      obtain ⟨hplain, rfl⟩ := hchars.eq_of_printed heq
      exact ⟨hplain, htoks⟩

/-- Strings that are read back from the text of tokens are plain. -/
theorem plain_of_lexes {toks toks' : List JsonToken} (hprint : Printable toks)
    (h : Lexes (tokensText toks) toks') (hstrings : tokenStrings toks' = tokenStrings toks) :
    ∀ s, JsonToken.str s ∈ toks → IsPlain s := by
  induction toks generalizing toks' with
  | nil => exact fun _ h => nomatch h
  | cons tok toks ih =>
      have hrest := hprint.tail
      rw [tokensText_cons] at h
      intro s hs
      cases hstr : tok.str? with
      | none =>
          obtain ⟨toks'', hlexes, heq⟩ := h.peel (hprint.valid tok List.mem_cons_self) hstr
            hprint.head
          refine ih hrest hlexes ?_ s ?_
          · rw [← heq, hstrings]
            exact List.filterMap_cons_none hstr
          · refine (List.mem_cons.mp hs).resolve_left ?_
            rintro rfl
            cases hstr
      | some s' =>
          obtain rfl := JsonToken.eq_str hstr
          obtain ⟨d, toks'', hd, hback⟩ := h.peel_str
          have hcons : tokenStrings (.str s' :: toks) = s' :: tokenStrings toks := rfl
          rw [hd, hcons, List.cons.injEq] at hstrings
          obtain ⟨hplain, hlexes⟩ := hback hstrings.1
          rcases List.mem_cons.mp hs with hs | hs
          · cases hs
            exact hplain
          · exact ih hrest hlexes hstrings.2 s hs

/-! ## Texts -/

/-- A string that is a text in quotes. -/
structure IsClean (s : CStr) : Prop where
  plain : IsPlain s
  utf8 : IsUtf8 s

/-- A string of printable ASCII without quotes and backslashes. -/
def isPlainAscii (s : CStr) : Bool :=
  isAscii s && s.all (IsPlainChar ·)

/-- Plain ASCII is decided part by part. -/
theorem isPlainAscii_append (s t : CStr) :
    isPlainAscii (s ++ t) = (isPlainAscii s && isPlainAscii t) := by
  simp only [isPlainAscii, isAscii, List.all_append]
  ac_rfl

/-- Such a string is clean. -/
theorem isClean_ascii {s : CStr} (h : isPlainAscii s) : IsClean s := by
  rw [isPlainAscii, Bool.and_eq_true] at h
  have hutf8 := isUtf8_ascii_append_iff h.1 []
  rw [List.append_nil] at hutf8
  refine ⟨fun c hc => ?_, hutf8.mpr IsUtf8.nil⟩
  exact of_decide_eq_true (List.all_eq_true.mp h.2 c hc)

/-- Blanks do not have strings. -/
theorem tokenStrings_filter (toks : List JsonToken) :
    tokenStrings (toks.filter (· ≠ .blank)) = tokenStrings toks := by
  rw [tokenStrings, List.filterMap_filter]
  congr 1
  funext tok
  cases tok <;> rfl

/-- Printed tokens with clean strings are a text of the value they are tokens
of. -/
theorem isJson_text {toks : List JsonToken} {doc : Json}
    (hvalid : ∀ tok ∈ toks, tok.Valid) (hdoc : toks.filter (· ≠ .blank) = doc.tokens)
    (hclean : ∀ s, JsonToken.str s ∈ toks → IsClean s) : IsJson (tokensText toks) doc :=
  ⟨(isUtf8_text_iff hvalid).mpr fun s hs => (hclean s hs).utf8, toks,
    lexes_text hvalid fun s hs => (hclean s hs).plain, hdoc⟩

/-- Printed tokens are a text in which the strings are read back exactly when
these are clean. -/
theorem isJson_text_iff {toks : List JsonToken} {doc : Json} (hprint : Printable toks)
    (hdoc : toks.filter (· ≠ .blank) = doc.tokens) :
    (∃ v, IsJson (tokensText toks) v ∧ v.strings = doc.strings) ↔
      ∀ s, JsonToken.str s ∈ toks → IsClean s := by
  constructor
  · rintro ⟨v, ⟨hutf8, toks', hlexes, hv⟩, hstrings⟩ s hs
    have hsame : tokenStrings toks' = tokenStrings toks := by
      rw [Json.strings, Json.strings, ← hv, ← hdoc, tokenStrings_filter,
        tokenStrings_filter] at hstrings
      exact hstrings
    exact ⟨plain_of_lexes hprint hlexes hsame s hs, (isUtf8_text_iff hprint.valid).mp hutf8 s hs⟩
  · exact fun hclean => ⟨doc, isJson_text hprint.valid hdoc hclean, rfl⟩

/-- An open object is not a text. -/
theorem not_isJson_open (v : Json) : ¬IsJson ['{'] v := by
  rintro ⟨-, toks, hlexes, htoks⟩
  obtain ⟨lexeme, tok, rest, toks', hlex, heq, hrest, rfl⟩ := hlexes.head
  obtain ⟨rfl, rfl⟩ := List.append_eq_nil_iff.mp heq.symm
  obtain ⟨rfl, -⟩ := (IsLexeme.punct (by decide)).eq_of_head rfl rfl hlex
  obtain rfl : toks' = [] := by
    generalize hnil : ([] : CStr) = text at hrest
    cases hrest with
    | nil => rfl
    | cons h _ => exact absurd (List.append_eq_nil_iff.mp hnil.symm).1 h.ne_nil
  have hshort : v.tokens.length ≤ 1 := htoks ▸ List.length_filter_le _ _
  cases v with
  | arr items | obj members => simp [Json.tokens] at hshort
  | _ => simp [Json.tokens] at htoks

/-! ## Putting tokens together -/

theorem Printable.nil : Printable [] :=
  ⟨fun _ h => (nomatch h), .nil⟩

/-- A token that is no number can stand before others. -/
theorem Printable.cons {tok : JsonToken} {toks : List JsonToken} (hvalid : tok.Valid)
    (hnum : tok.isNum = false) (h : Printable toks) : Printable (tok :: toks) := by
  refine ⟨List.forall_mem_cons.mpr ⟨hvalid, h.valid⟩, ?_⟩
  cases toks with
  | nil => exact .singleton _
  | cons next toks =>
      refine List.isChain_cons_cons.mpr ⟨fun htrue => ?_, h.spaced⟩
      rw [hnum] at htrue
      cases htrue

/-- A valid token is printable. -/
theorem Printable.singleton {tok : JsonToken} (hvalid : tok.Valid) : Printable [tok] :=
  ⟨List.forall_mem_singleton.mpr hvalid, .singleton _⟩

/-- Tokens can stand behind others with punctuation between them. -/
theorem Printable.append_punct {toks toks' : List JsonToken} {c : Char} (h : Printable toks)
    (hc : (JsonToken.punct c).Valid) (h' : Printable toks') :
    Printable (toks ++ .punct c :: toks') := by
  have htail := Printable.cons hc rfl h'
  refine ⟨List.forall_mem_append.mpr ⟨h.valid, htail.valid⟩, ?_⟩
  refine List.isChain_append.mpr ⟨h.spaced, htail.spaced, ?_⟩
  rintro tok - next hnext -
  cases hnext
  rfl

/-- The parts behind the first have a separator each. -/
theorem intercalate_cons {α : Type} (sep part : List α) (parts : List (List α)) :
    sep.intercalate (part :: parts) = part ++ parts.flatMap (sep ++ ·) := by
  induction parts generalizing part with
  | nil => simp
  | cons next parts ih =>
      rw [List.intercalate_cons_cons, ih, List.flatMap_cons, List.append_assoc, List.append_assoc]

/-- Parts in brackets, with commas between them. -/
def bracket (o c : Char) (parts : List (List JsonToken)) : List JsonToken :=
  .punct o :: ([JsonToken.punct ','].intercalate parts ++ [.punct c])

/-- Commas keep printable parts apart. -/
theorem Printable.intercalate {parts : List (List JsonToken)} (h : ∀ part ∈ parts, Printable part) :
    Printable ([JsonToken.punct ','].intercalate parts) := by
  induction parts with
  | nil => exact .nil
  | cons part parts ih =>
      have hpart := h part List.mem_cons_self
      have hrest := ih fun p hp => h p (List.mem_cons_of_mem _ hp)
      cases parts with
      | nil => simpa [List.intercalate] using hpart
      | cons next parts => exact hpart.append_punct (by simp) hrest

/-- Brackets and commas keep printable parts apart. -/
theorem Printable.bracket {o c : Char} (ho : (JsonToken.punct o).Valid)
    (hc : (JsonToken.punct c).Valid) {parts : List (List JsonToken)}
    (h : ∀ part ∈ parts, Printable part) : Printable (bracket o c parts) :=
  .cons ho rfl ((Printable.intercalate h).append_punct hc .nil)

/-- Blanks are in the parts. -/
theorem bracket_filter (o c : Char) {α : Type} {l : List α} {f g : α → List JsonToken}
    (h : ∀ a ∈ l, (f a).filter (· ≠ .blank) = g a) :
    (bracket o c (l.map f)).filter (· ≠ .blank) = bracket o c (l.map g) := by
  have hinner : ([JsonToken.punct ','].intercalate (l.map f)).filter (· ≠ .blank) =
      [JsonToken.punct ','].intercalate (l.map g) := by
    cases l with
    | nil => rfl
    | cons a l =>
        obtain ⟨ha, hl⟩ := List.forall_mem_cons.mp h
        rw [List.map_cons, List.map_cons, intercalate_cons, intercalate_cons, List.filter_append, ha,
          List.filter_flatMap, List.flatMap_map, List.flatMap_map]
        congr 1
        refine List.flatMap_congr fun b hb => ?_
        rw [List.filter_append, hl b hb]
        rfl
  rw [bracket, List.filter_cons_of_pos rfl, List.filter_append, hinner]
  rfl

/-- The text of a bracket. -/
theorem tokensText_bracket (o c : Char) (parts : List (List JsonToken)) :
    tokensText (bracket o c parts) =
      [o] ++ [','].intercalate (parts.map tokensText) ++ [c] := by
  have hinner : tokensText ([JsonToken.punct ','].intercalate parts) =
      [','].intercalate (parts.map tokensText) := by
    cases parts with
    | nil => rfl
    | cons part parts =>
        have hrest : tokensText (parts.flatMap ([JsonToken.punct ','] ++ ·)) =
            parts.flatMap fun next => [','] ++ tokensText next := List.flatMap_assoc
        rw [List.map_cons, intercalate_cons, intercalate_cons, tokensText_append,
          List.flatMap_map, hrest]
  rw [bracket, tokensText_cons, tokensText_append, hinner]
  rfl

/-- A string of a bracket is one of its parts. -/
theorem str_mem_bracket {s : CStr} {o c : Char} (parts : List (List JsonToken)) :
    JsonToken.str s ∈ bracket o c parts ↔ ∃ part ∈ parts, JsonToken.str s ∈ part := by
  cases parts with
  | nil => simp [bracket]
  | cons part parts => simp [bracket, intercalate_cons]

end MdioTools.Library
