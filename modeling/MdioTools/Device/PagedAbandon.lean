import MdioTools.Device.Bench
import MdioTools.Device.PagedDump
import MdioTools.Kernel.Abandon

/-!
# Abandoned operations on a paged PHY

An operation on a paged PHY switches to the requested page and back, a benchmark
many times.  The interpreter abandons a program at the first failure, so an
abandoned operation has made some of these switches and no others.  Behind an
even number of them the page register holds what it held before; behind an odd
number of them it holds the requested page, and nothing restores the old one.

Main results:

- Definition {lit}`PagedOp`: the operations.
- Definition {lit}`PagedState.Switched`: a PHY behind some page switches.
- Theorem {lit}`pphyOp_abandoned`: the page register behind every operation, at
  whatever point it is abandoned.
-/

namespace MdioTools.Device

open Client Kernel Library

/-! ## The operations -/

/-- The common operations on a paged PHY. -/
inductive PagedOp
  | raw (reg : BitVec 32) (write : Option (BitVec 32 × BitVec 32))
  | dump (range : RegRange)
  | bench (reg : BitVec 32) (val : Option (BitVec 32))

namespace PagedOp

/-- The program of an operation. -/
def prog (pdev : PphyDevice) : PagedOp → Option MdioProg
  | raw reg write => some (mdioCommonRawProg (pphyDriver pdev) reg write)
  | dump range => mdioCommonDumpProg (pphyDriver pdev) range
  | bench reg val => some (mdioCommonBenchProg (pphyDriver pdev) reg val)

/-- The page that an operation requests. -/
def page : PagedOp → BitVec 16
  | raw reg _ | bench reg _ => (pphyPage reg).setWidth 16
  | dump range => (pphyPage range.start).setWidth 16

/-- The operation does not write the page register as a register of the page. -/
def SparesPageReg (pdev : PphyDevice) : PagedOp → Prop
  | raw reg write => write.isSome → pphyReg reg ≠ pdev.pageReg.setWidth 16
  | bench reg val => val.isSome → pphyReg reg ≠ pdev.pageReg.setWidth 16
  | dump _ => True

end PagedOp

/-! ## Page switches -/

/-- The values written by a number of page switches: the requested page, the old
one, and so on. -/
def pageSwitches (old page : BitVec 16) (n : Nat) : List (BitVec 16) :=
  (List.range n).map fun i => if i % 2 = 0 then page else old

/-- The switches go to the page and back in turn. -/
theorem pageSwitches_succ (old page : BitVec 16) (n : Nat) :
    pageSwitches old page (n + 1) =
      pageSwitches old page n ++ [if n % 2 = 0 then page else old] := by
  simp [pageSwitches, List.range_succ]

/-- As many switches as are asked for. -/
@[simp]
theorem pageSwitches_length (old page : BitVec 16) (n : Nat) :
    (pageSwitches old page n).length = n := by
  simp [pageSwitches]

/-- The first switches do not depend on how many follow. -/
theorem pageSwitches_take (old page : BitVec 16) {k n : Nat} (h : k ≤ n) :
    (pageSwitches old page n).take k = pageSwitches old page k := by
  rw [pageSwitches, ← List.map_take, List.take_range, Nat.min_eq_left h, pageSwitches]

/-- The page that a number of switches ends on. -/
theorem pageSwitches_last (old page : BitVec 16) (n : Nat) :
    (pageSwitches old page n).getLast?.getD old = if n % 2 = 0 then old else page := by
  cases n with
  | zero => rfl
  | succ n =>
      rw [pageSwitches_succ, List.getLast?_concat, Option.getD_some]
      by_cases heven : n % 2 = 0
      · rw [if_pos heven, if_neg (by omega)]
      · rw [if_neg heven, if_pos (by omega)]

/-- The PHY behind some switches from the page that it was on: the page register,
and the values that have been written to it.  There are none if it was on the
requested page. -/
structure PagedState.Switched (s : PagedState) (requested : BitVec 16) (n : Nat)
    (s' : PagedState) : Prop where
  page : s'.page = if n % 2 = 0 then s.page else requested
  writes : s'.pageWrites = s.pageWrites ++ pageSwitches s.page requested n
  quiet : s.page = requested → n = 0

/-- The PHY is back on the page that it was on. -/
def PagedState.Returned (s : PagedState) (page : BitVec 16) (s' : PagedState) : Prop :=
  ∃ n, n % 2 = 0 ∧ s.Switched page n s'

/-- A state that has returned shows the old page. -/
theorem PagedState.Returned.page_eq {s s' : PagedState} {page : BitVec 16}
    (h : s.Returned page s') : s'.page = s.page := by
  obtain ⟨n, heven, hswitched⟩ := h
  rw [hswitched.page, if_pos heven]

/-- A state has returned to itself without a switch. -/
theorem PagedState.Returned.refl (s : PagedState) (page : BitVec 16) : s.Returned page s :=
  ⟨0, rfl, by simp, by simp [pageSwitches], fun _ => rfl⟩

/-- A switch to the page and back. -/
theorem PagedState.Returned.leave {s b inside : PagedState} {page : BitVec 16}
    (h : s.Returned page b) (hpage : inside.page = page)
    (hwrites : inside.pageWrites = (b.enter page).pageWrites) :
    s.Returned page (if b.page = page then inside else inside.select b.page) := by
  have hback := h.page_eq
  obtain ⟨n, heven, hswitched⟩ := h
  by_cases hsame : b.page = page
  · rw [if_pos hsame]
    refine ⟨n, heven, ?_, ?_, hswitched.quiet⟩
    · rw [if_pos heven, hpage, ← hsame, hback]
    · rw [hwrites, PagedState.enter, if_pos hsame, hswitched.writes]
  · rw [if_neg hsame]
    refine ⟨n + 2, by omega, ?_, ?_, fun heq => absurd (hback.trans heq) hsame⟩
    · rw [if_pos (by omega)]
      exact hback
    · have hodd : ¬(n + 1) % 2 = 0 := by omega
      rw [PagedState.enter, if_neg hsame] at hwrites
      simp only [PagedState.select] at hwrites ⊢
      rw [hwrites, hswitched.writes, pageSwitches_succ, pageSwitches_succ, if_pos heven,
        if_neg hodd, hback, ← List.append_assoc, ← List.append_assoc]

/-! ## Operations without failures -/

variable {pdev : PphyDevice} {s b b' : PagedState}

/-- A read leaves the state. -/
theorem pagedPhy_read_snd (reg : BitVec 16) (b : PagedState) :
    ((pagedPhy pdev).read (mdioTarget pdev.id) reg b).2 = b := by
  simp only [pagedPhy, if_true]
  split_ifs <;> rfl

/-- A write to another register than that of the page is stored. -/
theorem pagedPhy_write_store {reg : BitVec 16} (hreg : reg ≠ pdev.pageReg.setWidth 16)
    (val : BitVec 16) (b : PagedState) :
    (pagedPhy pdev).write (mdioTarget pdev.id) reg val b = b.store reg val := by
  simp [pagedPhy, hreg]

/-- A read. -/
theorem PagedState.Returned.read {reg : BitVec 32} {v : BitVec 16}
    (h : s.Returned ((pphyPage reg).setWidth 16) b)
    (hread : KnownDriver.BusRead (pagedPhy pdev) (.pphy pdev) reg b v b') :
    s.Returned ((pphyPage reg).setWidth 16) b' := by
  obtain ⟨-, rfl⟩ := hread
  rw [pphyBusEnter_pagedPhy, pphyBusLeave_pagedPhy, pagedPhy_read_snd]
  exact h.leave (b.enter_page _) rfl

/-- A write of a register other than the page register. -/
theorem PagedState.Returned.write {reg : BitVec 32} {val : BitVec 16}
    (hreg : pphyReg reg ≠ pdev.pageReg.setWidth 16)
    (h : s.Returned ((pphyPage reg).setWidth 16) b)
    (hwrite : KnownDriver.BusWrite (pagedPhy pdev) (.pphy pdev) reg val b b') :
    s.Returned ((pphyPage reg).setWidth 16) b' := by
  have hb' : b' = pphyBusLeave (pagedPhy pdev) pdev (pphyPage reg) _ _ := hwrite
  rw [hb', pphyBusEnter_pagedPhy, pphyBusLeave_pagedPhy, pagedPhy_write_store hreg]
  exact h.leave (b.enter_page _) rfl

/-- Reads of one register keep what has returned. -/
theorem PagedState.Returned.reads {reg : BitVec 32} {n : Nat} {vs : List (BitVec 16)}
    (h : s.Returned ((pphyPage reg).setWidth 16) b)
    (hreads : ReadsEach (pagedPhy pdev) (.pphy pdev) b (List.replicate n reg) vs b') :
    s.Returned ((pphyPage reg).setWidth 16) b' := by
  induction n generalizing b vs with
  | zero =>
      cases hreads
      exact h
  | succ n ih =>
      cases hreads with
      | cons hread hrest => exact ih (h.read hread) hrest

/-- Without failures every operation ends on the page that the PHY was on. -/
theorem pphyOp_returned (op : PagedOp) {prog : MdioProg} (hprog : op.prog pdev = some prog)
    (hspares : op.SparesPageReg pdev) (s : PagedState) :
    ∃ d', Runs (pagedPhy pdev) prog ⟨fun _ => 0, [], s⟩ d' ∧ s.Returned op.page d'.bus := by
  have hsettles : KnownDriver.Settles (pagedPhy pdev) (.pphy pdev) := trivial
  cases op with
  | raw reg write =>
      obtain rfl := Option.some.inj hprog
      obtain ⟨b', haccess⟩ := exists_rawAccess hsettles reg write s
      obtain ⟨d', hruns, rfl⟩ := rawProg_runs (d := ⟨fun _ => 0, [], s⟩) haccess
      refine ⟨d', hruns, ?_⟩
      have hstart := PagedState.Returned.refl s ((pphyPage reg).setWidth 16)
      match write with
      | none =>
          obtain ⟨v, hread⟩ := haccess
          exact hstart.read hread
      | some (val, mask) =>
          have hreg := hspares rfl
          rw [RawAccess] at haccess
          split_ifs at haccess with hmask
          · exact hstart.write hreg haccess
          · obtain ⟨v, b₁, hread, hwrite⟩ := haccess
            exact (hstart.read hread).write hreg hwrite
  | dump range =>
      have hdump : pphyDump pdev [] range = some prog := hprog
      rw [pphyDump_eq] at hdump
      obtain ⟨regs, -, hregs⟩ := Option.map_eq_some_iff.mp hdump
      rw [foldl_readEmit, pphyLeave_append] at hregs
      subst hregs
      obtain ⟨d', hruns, -, hbus⟩ :=
        pphyDumpProg_runs pdev (pphyPage range.start) regs ⟨fun _ => 0, [], s⟩
      refine ⟨d', hruns, ?_⟩
      rw [hbus]
      exact (PagedState.Returned.refl s _).leave (s.enter_page _) rfl
  | bench reg val =>
      obtain rfl := Option.some.inj hprog
      obtain ⟨expected, b₁, vs, b₂, hsetup, hreads⟩ := exists_benchRun hsettles reg val s
      obtain ⟨d', hruns, -, rfl⟩ := benchProg_runs hsetup hreads
      refine ⟨d', hruns, ?_⟩
      have hstart := PagedState.Returned.refl s ((pphyPage reg).setWidth 16)
      cases val with
      | none => exact (hstart.read hsetup).reads hreads
      | some val => exact (hstart.write (hspares rfl) hsetup.2).reads hreads

/-! ## Abandoned operations -/

/-- What a transaction does to the page register: it is the last value written,
and the log of these values only grows. -/
def PagedState.Logs (s s' : PagedState) : Prop :=
  ∃ log, s'.pageWrites = s.pageWrites ++ log ∧ s'.page = log.getLast?.getD s.page

/-- A state logs nothing against itself. -/
theorem PagedState.Logs.refl (s : PagedState) : s.Logs s :=
  ⟨[], by simp, rfl⟩

/-- Logs are put one behind another. -/
theorem PagedState.Logs.trans {s s' s'' : PagedState} (h : s.Logs s') (h' : s'.Logs s'') :
    s.Logs s'' := by
  obtain ⟨log, hwrites, hpage⟩ := h
  obtain ⟨log', hwrites', hpage'⟩ := h'
  refine ⟨log ++ log', by rw [hwrites', hwrites, List.append_assoc], ?_⟩
  rw [hpage', hpage, List.getLast?_append]
  cases log'.getLast? <;> rfl

/-- A read is no switch. -/
theorem pagedPhy_logs_read (t : MdioTarget) (reg : BitVec 16) (s : PagedState) :
    s.Logs ((pagedPhy pdev).read t reg s).2 := by
  have hsame : ((pagedPhy pdev).read t reg s).2 = s := by
    simp only [pagedPhy]
    split_ifs <;> rfl
  rw [hsame]
  exact .refl s

/-- A write is a switch if it is one of the page register. -/
theorem pagedPhy_logs_write (t : MdioTarget) (reg val : BitVec 16) (s : PagedState) :
    s.Logs ((pagedPhy pdev).write t reg val s) := by
  simp only [pagedPhy]
  split_ifs
  · exact ⟨[val], rfl, rfl⟩
  · exact ⟨[], by simp [PagedState.store], rfl⟩
  · exact .refl s

/-- Between the start and the end of an operation the PHY is behind some of the
switches. -/
theorem PagedState.Switched.cut {s t s' : PagedState} {page : BitVec 16} {n : Nat}
    (h : s.Switched page n s') (hst : s.Logs t) (hts : t.Logs s') :
    ∃ k ≤ n, s.Switched page k t := by
  obtain ⟨log, hwrites, hpage⟩ := hst
  obtain ⟨log', hwrites', -⟩ := hts
  have hall : log ++ log' = pageSwitches s.page page n := by
    rw [hwrites, h.writes, List.append_assoc] at hwrites'
    exact (List.append_cancel_left hwrites').symm
  have hlen : log.length ≤ n := by
    have hlength := congrArg List.length hall
    rw [List.length_append, pageSwitches_length] at hlength
    omega
  have hlog : log = pageSwitches s.page page log.length := by
    rw [← pageSwitches_take _ _ hlen, ← hall, List.take_left]
  refine ⟨log.length, hlen, ?_, ?_, fun hsame => ?_⟩
  · rw [hpage]
    conv_lhs => rw [hlog]
    exact pageSwitches_last s.page page log.length
  · rw [hwrites]
    conv_lhs => rw [hlog]
  · have hnone := h.quiet hsame
    omega

/-- For every paged PHY, every operation on it that does not write the page
register as a register of the page, every content of the PHY, every bus on which
any transactions fail, and every host on which the deadline passes at any time or
any word is refused: the request completes behind some page switches and no
others.  The page register holds its initial content if their number is even,
which it is if the program has run to its end, and the requested page if it is
odd; and there is no switch if the requested page was selected already. -/
theorem pphyOp_abandoned (pdev : PphyDevice) (op : PagedOp) {prog : MdioProg}
    (hprog : op.prog pdev = some prog) (hspares : op.SparesPageReg pdev)
    (hlen : prog.length ≤ 512) {γ ρ : Type} {bus : MiiBus γ} {proj : γ → PagedState}
    (hbus : MayFail (pagedPhy pdev) bus proj) (host : Host ρ) (h : ρ) (c : γ) :
    ∃ why ret h' c' n,
      (mdioNlEval prog bus host).Halts (.entry h c) (.returned why ret h' c') ∧
      (proj c).Switched op.page n (proj c') ∧ (why = .progEnd → n % 2 = 0) := by
  obtain ⟨d', hruns, n, heven, hswitched⟩ := pphyOp_returned op hprog hspares (proj c)
  obtain ⟨why, ret, h', c', hhalts, ⟨t, hreach, ht⟩, hend⟩ := hruns.abandons hbus host h hlen
  have hlogs := mdioNlEval_bus (pagedPhy pdev) PagedState.Logs.refl
    PagedState.Logs.trans pagedPhy_logs_read pagedPhy_logs_write prog
  have hbefore : (proj c).Logs (proj c') := ht ▸ (hlogs (.entry [] (proj c))).1 t hreach
  have hafter : (proj c').Logs d'.bus :=
    ht ▸ (hlogs t).2 _ _ _ _ ((hruns.halts hlen).of_reaches hreach)
  obtain ⟨k, hk, hcut⟩ := hswitched.cut hbefore hafter
  refine ⟨why, ret, h', c', k, hhalts, hcut, fun hwhy => ?_⟩
  have hlength := congrArg (List.length ·.pageWrites) (hend hwhy)
  rw [hcut.writes, hswitched.writes] at hlength
  simp only [List.length_append, pageSwitches_length] at hlength
  omega

/-- The hypotheses are met by a masked write of register 1 of the fiber page of
an Alaska PHY, and a bus on which the fourth transaction fails. -/
theorem pphyOp_abandoned_fiber_1 : ∃ why ret h' c' n,
    (mdioNlEval (mdioCommonRawProg (pphyDriver ⟨1, 0x16⟩) 0x10001 (some (1, 0xfffe)))
        (failAt (pagedPhy ⟨1, 0x16⟩)) quietHost).Halts
      (.entry [] (4, ⟨5, fun a => a.1 + a.2, []⟩)) (.returned why ret h' c') ∧
    PagedState.Switched ⟨5, fun a => a.1 + a.2, []⟩ 1 n c'.2 ∧ (why = .progEnd → n % 2 = 0) :=
  pphyOp_abandoned ⟨1, 0x16⟩ (.raw 0x10001 (some (1, 0xfffe))) rfl (fun _ => by decide)
    (by decide) (failAt_mayFail _) quietHost [] (4, ⟨5, fun a => a.1 + a.2, []⟩)

/-- A PHY that is on page 5 is left on page 1 by a read of register 1 of page 1,
when the read of that register fails.  And it is left on page 7, without any
failure, by a write of 7 to the page register as a register of page 5. -/
theorem pphyOp_not_restored :
    (∃ words c', (mdioNlEval (mdioCommonRawProg (pphyDriver ⟨1, 0x16⟩) 0x10001 none)
        (failAt (pagedPhy ⟨1, 0x16⟩)) quietHost).Halts
      (.entry [] (3, ⟨5, fun a => a.1 + a.2, []⟩)) (.returned .access (-5) words c') ∧
      c'.2.page = 1) ∧
    ∃ words s', (mdioNlEval (mdioCommonRawProg (pphyDriver ⟨1, 0x16⟩) 0x50016 (some (7, 0)))
        (pagedPhy ⟨1, 0x16⟩).bus quietHost).Halts
      (.entry [] ⟨5, fun a => a.1 + a.2, []⟩) (.returned .progEnd 0 words s') ∧ s'.page = 7 :=
  ⟨⟨_, _, ⟨4, rfl⟩, rfl⟩, _, _, ⟨7, rfl⟩, rfl⟩

end MdioTools.Device
