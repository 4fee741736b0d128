import Mathlib.Data.Fintype.Pi
import Mathlib.Logic.Function.Basic
import MdioTools.Client.Mvls
import MdioTools.Library.Printf

/-!
# The report of the `counter` command

The callback of the command gets two words for each of six counters of eleven
ports, prints by how much they have grown since the last report, and keeps them
for the next one.  A port whose counters have not changed gets no line.

Main results:

- Definition {lit}`mvlsCounterCb`: the callback.
- Theorems {lit}`mvlsCounterCb_lines` and {lit}`mvlsCounterCb_shown`: the lines of a
  report, and how they are seen.
- Theorem {lit}`mvlsCounterCb_telescopes`: the printed differences of one report.
- Theorem {lit}`counterReports_sum`: over any number of reports they add up to
  the last value of each counter.
-/

namespace MdioTools.Client

open Library

/-! ## The callback -/

/-- `prev` of `struct mvls_counter_ctx`. -/
abbrev MvlsCounterCtx : Type :=
  Fin 11 → Fin 6 → BitVec 32

/-- The counters of a port in the words of a report. -/
def counterNow (data : List (BitVec 32)) (i : Fin 11) (n : Fin 6) : BitVec 32 :=
  data.getD (i.val * 12 + 2 * n.val) 0 <<< 16 ||| data.getD (i.val * 12 + 2 * n.val + 1) 0

/-- A line of a report: a port, and by how much its counters have grown. -/
structure CounterLine where
  port : Fin 11
  delta : Fin 6 → BitVec 32

/-- The text of a line: broadcasts, unicasts and multicasts, received and
sent. -/
def CounterLine.text (l : CounterLine) : CStr :=
  let field (n : Fin 6) : CStr := padLeft 3 ' ' (dec (l.delta n).toNat)
  hex l.port.val ++ "   ".toList ++ field 1 ++ " ".toList ++ field 4 ++ "  ".toList ++
    field 0 ++ " ".toList ++ field 3 ++ "  ".toList ++ field 2 ++ " ".toList ++ field 5 ++
    "\n".toList

/-- The loop body of `mvls_counter_cb`. -/
def counterPort (data : List (BitVec 32)) (st : MvlsCounterCtx × List CounterLine) (i : Fin 11) :
    MvlsCounterCtx × List CounterLine :=
  let now := counterNow data i
  if st.1 i = now then st
  else (Function.update st.1 i now, st.2 ++ [⟨i, fun n => now n - st.1 i n⟩])

/-- The loop of `mvls_counter_cb`: the counters that are kept, and the lines. -/
def counterLoop (data : List (BitVec 32)) (prev : MvlsCounterCtx) :
    MvlsCounterCtx × List CounterLine :=
  (List.finRange 11).foldl (counterPort data) (prev, [])

/-- What `mvls_counter_cb` prints in front of the lines. -/
def counterHeading : CStr :=
  "    \x1b[7m Bcasts   Ucasts   Mcasts\x1b[0m\n".toList ++
    "\x1b[7mP    Rx  Tx   Rx  Tx   Rx  Tx\x1b[0m\n".toList

/-- What the callback leaves: its return value, the lines that it prints, all
that it prints, and the counters that it keeps. -/
structure CounterReport where
  err : Int
  lines : List CounterLine
  text : CStr
  prev : MvlsCounterCtx

/-- `mvls_counter_cb`. -/
def mvlsCounterCb (data : List (BitVec 32)) (err : Int) (prev : MvlsCounterCtx) : CounterReport :=
  if data.length ≠ 11 * 6 * 2 then ⟨1, [], [], prev⟩
  else
    let st := counterLoop data prev
    ⟨err, st.2, counterHeading ++ st.2.flatMap CounterLine.text, st.1⟩

/-- A report of the right length. -/
theorem mvlsCounterCb_eq {data : List (BitVec 32)} (hlen : data.length = 132) (err : Int)
    (prev : MvlsCounterCtx) : mvlsCounterCb data err prev =
      ⟨err, (counterLoop data prev).2,
        counterHeading ++ (counterLoop data prev).2.flatMap CounterLine.text,
        (counterLoop data prev).1⟩ := by
  rw [mvlsCounterCb, if_neg (not_not.mpr hlen)]

/-! ## What is seen -/

/-- A line of text shows a line of a report: the port, and in three columns of
pairs by how much the received and the sent broadcasts (counters 1 and 4), unicasts
(0 and 3) and multicasts (2 and 5) have grown. -/
def CounterLine.Shown (l : CounterLine) (s : CStr) : Prop :=
  ∃ col : Fin 6 → CStr, (∀ n, Column 3 (l.delta n).toNat (col n)) ∧
    s = hexDigits 1 l.port.val ++ "   ".toList ++ col 1 ++ " ".toList ++ col 4 ++ "  ".toList ++
      col 0 ++ " ".toList ++ col 3 ++ "  ".toList ++ col 2 ++ " ".toList ++ col 5 ++ "\n".toList

/-- What a report prints shows its lines, under a heading. -/
def CounterReport.Shown (r : CounterReport) : Prop :=
  ∃ texts, List.Forall₂ CounterLine.Shown r.lines texts ∧
    r.text = ("    \x1b[7m Bcasts   Ucasts   Mcasts\x1b[0m\n" ++
      "\x1b[7mP    Rx  Tx   Rx  Tx   Rx  Tx\x1b[0m\n").toList ++ texts.flatten

/-- The text of a line shows it. -/
theorem CounterLine.shown_text (l : CounterLine) : l.Shown l.text := by
  refine ⟨_, fun n => column_padLeft_dec 3 (l.delta n).toNat, ?_⟩
  have hport : hex l.port.val = hexDigits 1 l.port.val := by
    have hlt : l.port.val < 16 := by omega
    rw [hexDigits, hexDigits, hex, Nat.toDigits_of_lt_base hlt, Nat.mod_eq_of_lt hlt]
    rfl
  rw [CounterLine.text, hport]

/-- The text of a report shows it. -/
theorem mvlsCounterCb_shown {data : List (BitVec 32)} (hlen : data.length = 132) (err : Int)
    (prev : MvlsCounterCtx) : (mvlsCounterCb data err prev).Shown := by
  generalize hloop : counterLoop data prev = st
  rw [mvlsCounterCb_eq hlen, hloop]
  refine ⟨st.2.map CounterLine.text, ?_, ?_⟩
  · rw [List.forall₂_map_right_iff]
    exact List.forall₂_same.mpr fun l _ => l.shown_text
  · have hheading : counterHeading = ("    \x1b[7m Bcasts   Ucasts   Mcasts\x1b[0m\n" ++
        "\x1b[7mP    Rx  Tx   Rx  Tx   Rx  Tx\x1b[0m\n").toList := String.toList_append.symm
    rw [← hheading, ← List.flatMap_def]

/-! ## The lines of a report -/

/-- The lines that a report has to have: one for each port some of whose counters
have changed. -/
def changedLines (data : List (BitVec 32)) (prev : MvlsCounterCtx) (ports : List (Fin 11)) :
    List CounterLine :=
  (ports.filter fun i => prev i ≠ counterNow data i).map fun i =>
    ⟨i, fun n => counterNow data i n - prev i n⟩

/-- The loop over ports that have not been looked at. -/
theorem counterPorts_lines (data : List (BitVec 32)) {prev : MvlsCounterCtx}
    {ports : List (Fin 11)} (hnodup : ports.Nodup) {st : MvlsCounterCtx × List CounterLine}
    (hst : ∀ i ∈ ports, st.1 i = prev i) :
    (ports.foldl (counterPort data) st).2 = st.2 ++ changedLines data prev ports := by
  induction ports generalizing st with
  | nil => simp [changedLines]
  | cons i ports ih =>
      obtain ⟨hnot, hrest⟩ := List.nodup_cons.mp hnodup
      have hi : st.1 i = prev i := hst i List.mem_cons_self
      have hothers : ∀ j ∈ ports, (counterPort data st i).1 j = prev j := by
        intro j hj
        have hne : j ≠ i := fun heq => hnot (heq ▸ hj)
        rw [← hst j (List.mem_cons_of_mem _ hj), counterPort]
        split
        · rfl
        · exact Function.update_of_ne hne _ _
      rw [List.foldl_cons, ih hrest hothers, counterPort, changedLines, changedLines, List.filter_cons]
      by_cases hsame : prev i = counterNow data i
      · simp [hi, hsame]
      · simp [hi, hsame]

/-- A report has exactly these lines. -/
theorem mvlsCounterCb_lines {data : List (BitVec 32)} (hlen : data.length = 132) (err : Int)
    (prev : MvlsCounterCtx) :
    (mvlsCounterCb data err prev).lines = changedLines data prev (List.finRange 11) := by
  have hst : ∀ i ∈ List.finRange 11, ((prev, []) : MvlsCounterCtx × List CounterLine).1 i = prev i :=
    fun _ _ => rfl
  have hlines := counterPorts_lines data (List.nodup_finRange 11) hst
  rw [List.nil_append, ← counterLoop] at hlines
  rw [mvlsCounterCb_eq hlen, hlines]

/-! ## The words of a report -/

/-- Words that come in blocks of one length. -/
theorem getElem?_blocks {α : Type} {f : Nat → List α} {m : Nat} (hlen : ∀ p, (f p).length = m)
    {k p j : Nat} (hp : p < k) (hj : j < m) :
    ((List.range k).flatMap f)[p * m + j]? = (f p)[j]? := by
  obtain ⟨r, rfl⟩ : ∃ r, k = p + (r + 1) := ⟨k - p - 1, by omega⟩
  rw [List.range_add, List.range_succ_eq_map, List.map_cons, Nat.add_zero]
  have hbefore : ((List.range p).flatMap f).length = p * m := by
    simp [List.length_flatMap, hlen]
  rw [List.flatMap_append, List.flatMap_cons, List.getElem?_append_right (by omega), hbefore,
    Nat.add_sub_cancel_left, List.getElem?_append_left (by rw [hlen]; exact hj)]

/-- The halves of a counter. -/
theorem counter_halves (v : BitVec 32) :
    ((v >>> 16).setWidth 16 : BitVec 16).setWidth 32 <<< 16 |||
      (v.setWidth 16 : BitVec 16).setWidth 32 = v := by
  apply BitVec.eq_of_getLsbD_eq
  intro i hi
  by_cases hlow : i < 16
  · simp [hlow, hi]
  · have hback : 16 + (i - 16) = i := by omega
    have hhigh : i - 16 < 16 := by omega
    simp [hlow, hi, hhigh, hback]

/-! ## One report -/

/-- What some lines say about a counter: the differences on the lines of its
port, and 0 if it has none. -/
def printedDelta (lines : List CounterLine) (i : Fin 11) (n : Fin 6) : Nat :=
  ((lines.filter (·.port = i)).map fun l => (l.delta n).toNat).sum

@[simp]
theorem printedDelta_nil (i : Fin 11) (n : Fin 6) : printedDelta [] i n = 0 :=
  rfl

theorem printedDelta_append (lines : List CounterLine) (l : CounterLine) (i : Fin 11)
    (n : Fin 6) : printedDelta (lines ++ [l]) i n =
      printedDelta lines i n + if l.port = i then (l.delta n).toNat else 0 := by
  by_cases hport : l.port = i <;> simp [printedDelta, hport]

/-- The lines lead from some counters to others, in the width of a counter. -/
def Telescopes (prev : MvlsCounterCtx) (lines : List CounterLine) (prev' : MvlsCounterCtx) : Prop :=
  ∀ i n, ((prev i n).toNat + printedDelta lines i n) % 2 ^ 32 = (prev' i n).toNat

theorem Telescopes.refl (prev : MvlsCounterCtx) : Telescopes prev [] prev := by
  intro i n
  have hlt := (prev i n).isLt
  simp only [printedDelta_nil]
  omega

/-- A line for a port, and the counters of the port kept. -/
theorem counterPort_telescopes (data : List (BitVec 32)) {prev : MvlsCounterCtx}
    {st : MvlsCounterCtx × List CounterLine} (h : Telescopes prev st.2 st.1) (i : Fin 11) :
    Telescopes prev (counterPort data st i).2 (counterPort data st i).1 := by
  unfold counterPort
  by_cases hsame : st.1 i = counterNow data i
  · rwa [if_pos hsame]
  · rw [if_neg hsame]
    intro j n
    have hj := h j n
    dsimp only
    rw [printedDelta_append]
    by_cases hij : i = j
    · subst hij
      rw [if_pos rfl, Function.update_self, BitVec.toNat_sub]
      have hold := (st.1 i n).isLt
      have hnow := (counterNow data i n).isLt
      omega
    · rw [if_neg hij, Function.update_of_ne (Ne.symm hij)]
      exact hj

/-- Once a port has been looked at, its counters are kept. -/
theorem counterPort_now {data : List (BitVec 32)} {st : MvlsCounterCtx × List CounterLine}
    {seen : List (Fin 11)} (h : ∀ j ∈ seen, st.1 j = counterNow data j) (i : Fin 11) :
    ∀ j ∈ seen ++ [i], (counterPort data st i).1 j = counterNow data j := by
  intro j hj
  have hseen : j ≠ i → j ∈ seen := fun hne => by
    rcases List.mem_append.mp hj with hj | hj
    · exact hj
    · exact absurd (List.mem_singleton.mp hj) hne
  unfold counterPort
  by_cases hsame : st.1 i = counterNow data i
  · rw [if_pos hsame]
    by_cases hij : j = i
    · rw [hij, hsame]
    · exact h j (hseen hij)
  · rw [if_neg hsame]
    dsimp only
    by_cases hij : j = i
    · rw [hij, Function.update_self]
    · rw [Function.update_of_ne hij]
      exact h j (hseen hij)

/-- The loop over the ports. -/
theorem counterPorts_spec {data : List (BitVec 32)} {prev : MvlsCounterCtx} (ports : List (Fin 11))
    {st : MvlsCounterCtx × List CounterLine} {seen : List (Fin 11)}
    (h : Telescopes prev st.2 st.1) (hseen : ∀ j ∈ seen, st.1 j = counterNow data j) :
    Telescopes prev (ports.foldl (counterPort data) st).2 (ports.foldl (counterPort data) st).1 ∧
      ∀ j ∈ seen ++ ports, (ports.foldl (counterPort data) st).1 j = counterNow data j := by
  induction ports generalizing st seen with
  | nil => exact ⟨h, by simpa using hseen⟩
  | cons i ports ih =>
      have hrest := ih (counterPort_telescopes data h i) (counterPort_now hseen i)
      rwa [List.append_assoc, List.singleton_append] at hrest

/-- The loop over some ports, from its start. -/
theorem counterPorts_start (data : List (BitVec 32)) (prev : MvlsCounterCtx)
    (ports : List (Fin 11)) :
    Telescopes prev (ports.foldl (counterPort data) (prev, [])).2
        (ports.foldl (counterPort data) (prev, [])).1 ∧
      ∀ j ∈ ports, (ports.foldl (counterPort data) (prev, [])).1 j = counterNow data j := by
  have hnone : ∀ j ∈ ([] : List (Fin 11)), prev j = counterNow data j := by simp
  have hports := @counterPorts_spec data prev ports (prev, []) [] (Telescopes.refl prev) hnone
  rwa [List.nil_append] at hports

theorem counterLoop_spec (data : List (BitVec 32)) (prev : MvlsCounterCtx) :
    Telescopes prev (counterLoop data prev).2 (counterLoop data prev).1 ∧
      (counterLoop data prev).1 = counterNow data := by
  have hports := counterPorts_start data prev (List.finRange 11)
  rw [← counterLoop] at hports
  exact ⟨hports.1, funext fun i => hports.2 i (List.mem_finRange i)⟩

/-- A report prints lines whose differences lead from the counters of the last
report to those of this one, and keeps these. -/
theorem mvlsCounterCb_telescopes {data : List (BitVec 32)} (hlen : data.length = 132) (err : Int)
    (prev : MvlsCounterCtx) :
    ∃ lines, mvlsCounterCb data err prev =
        ⟨err, lines, counterHeading ++ lines.flatMap CounterLine.text, counterNow data⟩ ∧
      Telescopes prev lines (counterNow data) := by
  obtain ⟨htelescopes, hnow⟩ := counterLoop_spec data prev
  rw [hnow] at htelescopes
  exact ⟨_, by rw [mvlsCounterCb_eq hlen, ← hnow], htelescopes⟩

/-! ## Repeated reports -/

/-- The lines of one report after the other, starting with the counters that the
first of them is compared with. -/
def counterReports (prev : MvlsCounterCtx) : List (List (BitVec 32)) → List (List CounterLine)
  | [] => []
  | data :: rest =>
      (mvlsCounterCb data 0 prev).lines :: counterReports (mvlsCounterCb data 0 prev).prev rest

/-- What all reports say about a counter. -/
def printedTotal (reports : List (List CounterLine)) (i : Fin 11) (n : Fin 6) : Nat :=
  (reports.map (printedDelta · i n)).sum

/-- The counters of the last report. -/
def lastCounters (prev : MvlsCounterCtx) (reports : List (List (BitVec 32))) : MvlsCounterCtx :=
  (reports.getLast?.map counterNow).getD prev

/-- Over any number of reports the printed differences lead from the first
counters to the last ones. -/
theorem counterReports_sum (prev : MvlsCounterCtx) (reports : List (List (BitVec 32)))
    (hlen : ∀ data ∈ reports, data.length = 132) (i : Fin 11) (n : Fin 6) :
    ((prev i n).toNat + printedTotal (counterReports prev reports) i n) % 2 ^ 32 =
      (lastCounters prev reports i n).toNat := by
  induction reports generalizing prev with
  | nil => exact Telescopes.refl prev i n
  | cons data rest ih =>
      obtain ⟨lines, hcb, htelescopes⟩ :=
        mvlsCounterCb_telescopes (hlen data List.mem_cons_self) 0 prev
      have hrest := ih (counterNow data) fun d hd => hlen d (List.mem_cons_of_mem _ hd)
      have hlast : lastCounters prev (data :: rest) = lastCounters (counterNow data) rest := by
        cases rest with
        | nil => rfl
        | cons d ds =>
            rw [lastCounters, lastCounters, List.getLast?_cons_cons, List.getLast?_cons]
            rfl
      have hone := htelescopes i n
      simp only [counterReports, hcb, printedTotal, List.map_cons, List.sum_cons] at hrest ⊢
      rw [hlast, ← hrest]
      omega

end MdioTools.Client
