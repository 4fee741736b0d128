import MdioTools.Client.Exec
import MdioTools.Library.Numeral

/-!
# The words of the `atu` command

The command flushes the address table of a switch: `flush` alone or `flush all`
for all entries, `flush` and a number for the entries of one filtering
identifier, and `static` behind either for the static entries too.  The client
reads the number without a look at its end or its bound, goes on behind an
option that it does not know, and does not look at further words.

Main results:

- Definition {lit}`AtuFlush`: the words of a flush, and what they ask for.
- Theorem {lit}`mvlsAtuExec_flush`: what the client sends for them.
- Definition {lit}`AtuSlip` and theorems {lit}`AtuSlip.sends`,
  {lit}`AtuSlip.not_flush` and {lit}`mvlsAtuExec_rejects`: the other words that
  the client sends something for.
-/

namespace MdioTools.Client

open Kernel Library

/-! ## What the words ask for -/

/-- A word that names a filtering identifier. -/
def NamesFid (word : CStr) (fid : BitVec 12) : Prop :=
  Integer word fid.toNat

/-- The words of a flush, its filtering identifier if it is limited to one, and
whether static entries are flushed. -/
inductive AtuFlush : List CStr → Option (BitVec 12) → Bool → Prop
  | everything : AtuFlush ["flush".toList] none false
  | all : AtuFlush ["flush".toList, "all".toList] none false
  | allStatic : AtuFlush ["flush".toList, "all".toList, "static".toList] none true
  | fid {word : CStr} {F : BitVec 12} : NamesFid word F →
      AtuFlush ["flush".toList, word] (some F) false
  | fidStatic {word : CStr} {F : BitVec 12} : NamesFid word F →
      AtuFlush ["flush".toList, word, "static".toList] (some F) true

/-- The operation of a flush: all entries, all that are not static, and the same
in one filtering identifier. -/
def atuOpcode : Option (BitVec 12) → Bool → BitVec 3
  | none, true => 1
  | none, false => 2
  | some _, true => 5
  | some _, false => 6

/-- The words behind the entries that a flush is about. -/
def AtuOptions (opts : List CStr) : Prop :=
  opts = [] ∨ opts = ["static".toList]

/-- The words that are no flush though something is sent for them: `flush all`
or `flush` and a word that is not read as a negative number, with other words
behind it than the option; and `flush` and a word that is read as some number,
but names no filtering identifier. -/
def AtuSlip (argv : List CStr) : Prop :=
  ∃ which opts, argv = "flush".toList :: which :: opts ∧
    (which = "all".toList ∨ 0 ≤ strtol which) ∧
    (¬AtuOptions opts ∨ which ≠ "all".toList ∧ ∀ F, ¬NamesFid which F)

/-! ## What the client sends -/

theorem NamesFid.strtol_eq {word : CStr} {F : BitVec 12} (h : NamesFid word F) :
    strtol word = F.toNat := by
  have hF := F.isLt
  have hend : EndsNumber [] := fun c hc => by cases hc
  have hread := strtol_integer h hend
  rw [List.append_nil] at hread
  omega

/-- A word that begins with a letter names no filtering identifier. -/
theorem NamesFid.head_ne_letter {c : Char} {t : CStr} {F : BitVec 12} (h : NamesFid (c :: t) F)
    {d : Nat} (hd : digitVal c = some d) : d < 10 := by
  obtain ⟨x, u, hs, hx⟩ := Integer.exists_head h
  obtain rfl : c = x := (List.cons.inj hs).1
  obtain hspace | rfl | rfl | ⟨v, hv, hlt⟩ := hx
  · rw [IsDigit.not_isSpace (b := d + 1) ⟨d, hd, by omega⟩] at hspace
    cases hspace
  · cases hd
  · cases hd
  · rw [hd] at hv
    cases hv
    exact hlt

theorem NamesFid.ne_all {word : CStr} {F : BitVec 12} (h : NamesFid word F) :
    word ≠ "all".toList := by
  rintro rfl
  exact absurd (h.head_ne_letter (c := 'a') rfl) (by decide)

/-- The number that the client reads is the identifier. -/
theorem NamesFid.ofInt_strtol {word : CStr} {F : BitVec 12} (h : NamesFid word F) :
    BitVec.ofInt 32 (strtol word) = F.setWidth 32 := by
  rw [h.strtol_eq, BitVec.ofInt_natCast]
  apply BitVec.eq_of_toNat_eq
  simp

variable (id : BitVec 16)

/-- What is sent behind the entries to flush. -/
theorem mvlsAtuExec_which (which : CStr) (opts : List CStr) :
    mvlsAtuExec id ("flush".toList :: which :: opts) =
      if which = "all".toList then atuSend id none (atuReadStat 0 opts)
      else if strtol which < 0 then
        .exit 1 ["ERROR: Invalid FID \"" ++ CStr.text which ++ "\""]
      else atuSend id (some (BitVec.ofInt 32 (strtol which))) (atuReadStat 4 opts) :=
  rfl

/-- What is sent for the words of a flush. -/
theorem mvlsAtuExec_flush {argv : List CStr} {fid : Option (BitVec 12)} {static : Bool}
    (h : AtuFlush argv fid static) :
    mvlsAtuExec id argv = atuSend id (fid.map (·.setWidth 32))
      ((atuOpcode fid static).setWidth 8, []) := by
  cases h with
  | everything => rfl
  | all => rfl
  | allStatic => rfl
  | @fid word F hword =>
      rw [mvlsAtuExec_which, if_neg hword.ne_all, if_neg (by rw [hword.strtol_eq]; omega),
        hword.ofInt_strtol]
      rfl
  | @fidStatic word F hword =>
      rw [mvlsAtuExec_which, if_neg hword.ne_all, if_neg (by rw [hword.strtol_eq]; omega),
        hword.ofInt_strtol]
      rfl

/-- Something is sent for a slip. -/
theorem AtuSlip.sends {argv : List CStr} (h : AtuSlip argv) :
    ∃ fid op, mvlsAtuExec id argv = atuSend id fid op := by
  obtain ⟨which, opts, rfl, hwhich, -⟩ := h
  rw [mvlsAtuExec_which]
  by_cases hall : which = "all".toList
  · exact ⟨_, _, if_pos hall⟩
  · have hnonneg : ¬strtol which < 0 := Int.not_lt.mpr (hwhich.resolve_left hall)
    exact ⟨_, _, (if_neg hall).trans (if_neg hnonneg)⟩

/-- A slip is no flush. -/
theorem AtuSlip.not_flush {argv : List CStr} (h : AtuSlip argv) (fid : Option (BitVec 12))
    (static : Bool) : ¬AtuFlush argv fid static := by
  obtain ⟨which, opts, rfl, -, hslip⟩ := h
  intro hflush
  generalize hargv : "flush".toList :: which :: opts = argv at hflush
  cases hflush with
  | everything => cases hargv
  | all =>
      cases hargv
      exact hslip.elim (fun hopts => hopts (.inl rfl)) fun hword => hword.1 rfl
  | allStatic =>
      cases hargv
      exact hslip.elim (fun hopts => hopts (.inr rfl)) fun hword => hword.1 rfl
  | fid hword =>
      cases hargv
      exact hslip.elim (fun hopts => hopts (.inl rfl)) fun hnone => hnone.2 _ hword
  | fidStatic hword =>
      cases hargv
      exact hslip.elim (fun hopts => hopts (.inr rfl)) fun hnone => hnone.2 _ hword

/-- All other words are refused. -/
theorem mvlsAtuExec_rejects {argv : List CStr}
    (hflush : ∀ fid static, ¬AtuFlush argv fid static) (hslip : ¬AtuSlip argv) :
    ∃ msg, mvlsAtuExec id argv = .exit 1 [msg] := by
  match argv with
  | [] => exact ⟨_, rfl⟩
  | arg :: rest =>
      by_cases harg : arg = "flush".toList
      · subst harg
        match rest with
        | [] => exact absurd .everything (hflush none false)
        | which :: opts =>
            rw [mvlsAtuExec_which]
            by_cases hall : which = "all".toList
            · have hopts : AtuOptions opts := not_not.mp fun hopts =>
                hslip ⟨which, opts, rfl, .inl hall, .inl hopts⟩
              subst hall
              rcases hopts with rfl | rfl
              · exact absurd .all (hflush none false)
              · exact absurd .allStatic (hflush none true)
            · by_cases hneg : strtol which < 0
              · exact ⟨_, (if_neg hall).trans (if_pos hneg)⟩
              · have hread : which = "all".toList ∨ 0 ≤ strtol which := .inr (by omega)
                have hopts : AtuOptions opts := not_not.mp fun hopts =>
                  hslip ⟨which, opts, rfl, hread, .inl hopts⟩
                have hnames : ∃ F, NamesFid which F := by
                  by_contra hnone
                  exact hslip ⟨which, opts, rfl, hread, .inr ⟨hall, fun F hF => hnone ⟨F, hF⟩⟩⟩
                obtain ⟨F, hF⟩ := hnames
                rcases hopts with rfl | rfl
                · exact absurd (.fid hF) (hflush (some F) false)
                · exact absurd (.fidStatic hF) (hflush (some F) true)
      · exact ⟨_, if_neg harg⟩

end MdioTools.Client
