import MdioTools.Kernel.CmdXfer
import MdioTools.Kernel.Safety
import MdioTools.Library.Clock

/-!
# The time limit of a request

A request may bring a time limit in milliseconds.  {lit}`mdio_nl_eval` adds it
to a counter that wraps, and compares a reading of the counter with the sum in
front of every instruction.

Main results:

- Theorem {lit}`timeoutMs_iff`: when the limit is the one that the policy has
  checked.
- Theorem {lit}`clocked_run`: as long as no reading is late, a run is the run
  without a clock.
- Theorem {lit}`mdioNlEval_deadline`: a run ends at its deadline, and only then
  because of it.
-/

namespace MdioTools.Kernel

open Library

/-! ## The limit that is read -/

/-- The `MDIO_NLA_TIMEOUT` entry of `mdio_nl_policy`: two bytes, with a value of
at most `10 * MSEC_PER_SEC`. -/
def mdioNlPolicyTimeout (e : Endian) (attr : NlAttr) : Prop :=
  attr.payload.length = 2 ∧ (e.get16 attr.payload).toNat ≤ 10 * 1000

/-- The handler uses the value in the payload, which is at most ten seconds. -/
structure LimitKept (env : ReplyEnv) (attrs : GenlAttrs) (attr : NlAttr) : Prop where
  exact : timeoutMs env attrs = (env.endian.get16 attr.payload).setWidth 32
  deadline : (timeoutMs env attrs).toNat ≤ 10 * 1000

/-- The bytes behind the payload do not count: on a little-endian host they are
the upper half of what is read, on a big-endian host the lower. -/
def BehindIsZero (e : Endian) (attr : NlAttr) : Prop :=
  attr.after.take 2 = [0, 0] ∧ (e = .big → e.get16 attr.payload = 0)

/-- The time limit is the one that the policy has checked exactly when the two
bytes behind it are 0 and, on a big-endian host, it is 0 itself. -/
theorem timeoutMs_iff (env : ReplyEnv) (attrs : GenlAttrs) (attr : NlAttr)
    (hattr : attrs.timeout = some attr) (hpol : mdioNlPolicyTimeout env.endian attr)
    (hafter : 2 ≤ attr.after.length) :
    LimitKept env attrs attr ↔ BehindIsZero env.endian attr := by
  have hread : timeoutMs env attrs = env.endian.get32 (attr.payload ++ attr.after) := by
    simp only [timeoutMs, hattr]
  obtain ⟨hlen, hmax⟩ := hpol
  have hexact : LimitKept env attrs attr ↔ env.endian.get32 (attr.payload ++ attr.after) =
      (env.endian.get16 attr.payload).setWidth 32 := by
    constructor
    · intro h
      rw [← hread]
      exact h.exact
    · intro h
      refine ⟨hread.trans h, ?_⟩
      rw [hread, h, BitVec.toNat_setWidth]
      omega
  rw [hexact]
  match hpayload : attr.payload, hlen with
  | [a, b], _ =>
      match hrest : attr.after, hafter with
      | c :: d :: rest, _ =>
          have htake : (c :: d :: rest).take 2 = [0, 0] ↔ c = 0 ∧ d = 0 := by simp
          unfold BehindIsZero
          rw [hrest, htake, hpayload]
          exact env.endian.get32_eq_get16_iff a b c d rest

/-- Behind a time limit that the client has put stand two zeros. -/
theorem timeoutMs_client_iff (env : ReplyEnv) (attrs : GenlAttrs) (limit : BitVec 16)
    (hlimit : limit.toNat ≤ 10 * 1000) (rest : List Byte)
    (hattr : attrs.timeout = some ⟨env.endian.put16 limit, 0 :: 0 :: rest⟩) :
    LimitKept env attrs ⟨env.endian.put16 limit, 0 :: 0 :: rest⟩ ↔
      (env.endian = .big → limit = 0) := by
  have hget : env.endian.get16 (env.endian.put16 limit) = limit := by
    have hput := env.endian.get16_put16 limit []
    rwa [List.append_nil] at hput
  rw [timeoutMs_iff env attrs _ hattr ⟨by simp, by rw [hget]; exact hlimit⟩ (by simp)]
  simp [BehindIsZero, hget]

/-- A request to emit one word, for the bus `a` and with a time limit. -/
def limitedRequest (limit : NlAttr) : GenlAttrs where
  busId := some ⟨[0x61, 0], [0, 0]⟩
  timeout := some limit
  prog := some ⟨8, [insn .emit (immArg 1) 0 0], by decide⟩
  data := false
  error := false

/-- One second on a little-endian host: the program runs with this limit. -/
theorem timeoutMs_iff_little_second :
    LimitKept (exampleEnv []) (limitedRequest ⟨[0xe8, 3], [0, 0]⟩) ⟨[0xe8, 3], [0, 0]⟩ ∧
      (mdioNlCmdXfer (exampleEnv []) (fun _ => some nullBus) (fun ms _ => ms ≠ 1000)
        (limitedRequest ⟨[0xe8, 3], [0, 0]⟩) () 2).map (·.status) = some (some 0) :=
  ⟨(timeoutMs_iff (exampleEnv []) _ _ rfl ⟨rfl, by decide⟩ (by decide)).mpr ⟨rfl, by decide⟩, rfl⟩

/-- One second on a big-endian host: the program runs with a limit of 65536 seconds. -/
theorem timeoutMs_big_second :
    mdioNlPolicyTimeout .big ⟨[3, 0xe8], [0, 0]⟩ ∧
      timeoutMs { exampleEnv [] with endian := .big }
        (limitedRequest ⟨[3, 0xe8], [0, 0]⟩) = 65536000 ∧
      (mdioNlCmdXfer { exampleEnv [] with endian := .big } (fun _ => some nullBus)
        (fun ms _ => ms ≠ 65536000) (limitedRequest ⟨[3, 0xe8], [0, 0]⟩) () 2).map (·.status) =
          some (some 0) ∧
      ¬LimitKept { exampleEnv [] with endian := .big }
        (limitedRequest ⟨[3, 0xe8], [0, 0]⟩) ⟨[3, 0xe8], [0, 0]⟩ := by
  refine ⟨⟨rfl, by decide⟩, by decide, rfl, fun h => ?_⟩
  exact absurd h.exact (by decide)

/-! ## The clock -/

section Clock

variable {π β : Type} {w : Nat}

/-- `msecs_to_jiffies`, of which the deadline relies on one thing: no number of
milliseconds is half the range of the counter or more. -/
structure MsecsToJiffies (w : Nat) where
  jiffies : BitVec 32 → Nat
  lt_half : ∀ ms, jiffies ms < 2 ^ w

/-- A host with the clock of `mdio_nl_eval`: it counts its readings, of which
the `n`-th shows the time `now n`, and compares each with `timeout`. -/
def clockHost (now : Nat → Nat) (timeout : BitVec (w + 1))
    (emit : BitVec 32 → π → Int × π) : Host (Nat × π) where
  expired h := (timeAfter (reading w (now h.1)) timeout, (h.1 + 1, h.2))
  emit datum h := ((emit datum h.2).1, (h.1, (emit datum h.2).2))

/-- A host without a clock. -/
def freeHost (emit : BitVec 32 → π → Int × π) : Host π where
  expired h := (false, h)
  emit := emit

/-- The instructions that the last iteration of a run begins. -/
def EvalExit.executed : EvalExit → Nat
  | .progEnd | .timeout => 0
  | .access | .emit | .illegal => 1

/-- An instruction that ends the run ends it with an exit of its own. -/
theorem evalInsn_exit {bus : MiiBus β} {host : Host π} {insn : MdioNlInsn} {s : EvalState π β}
    {why : EvalExit} {ret : Int} {h' : π} {b : β}
    (h : evalInsn bus host insn s = some (.inr (.returned why ret h' b))) :
    why.executed = 1 := by
  cases evalInsn_cases h with
  | illegal | readFailed | writeFailed | emitFailed => rfl

variable {now : Nat → Nat} {timeout : BitVec (w + 1)} {emit : BitVec 32 → π → Int × π}
  {prog : List MdioNlInsn} {bus : MiiBus β}

/-- A reading that is late ends the run at once. -/
theorem clocked_late (emit : BitVec 32 → π → Int × π) (bus : MiiBus β)
    {s : EvalState (Nat × π) β} (hpc : s.pc.toNat < prog.length)
    (h : timeAfter (reading w (now s.host.1)) timeout = true) :
    evalStep prog bus (clockHost now timeout emit) s =
      .inr (.returned .timeout (-etimedout) (s.host.1 + 1, s.host.2) s.bus) := by
  unfold evalStep
  rw [dif_pos hpc]
  simp only [clockHost, h, if_true]

/-- An iteration without a late reading does not end the run with a timeout. -/
theorem evalStep_in_time {s : EvalState (Nat × π) β} {why : EvalExit} {ret : Int} {h' : Nat × π}
    {b : β} (h : s.pc.toNat < prog.length → timeAfter (reading w (now s.host.1)) timeout = false)
    (hend : evalStep prog bus (clockHost now timeout emit) s = .inr (.returned why ret h' b)) :
    why ≠ .timeout := by
  rintro rfl
  unfold evalStep at hend
  by_cases hpc : s.pc.toNat < prog.length
  · rw [dif_pos hpc] at hend
    simp only [clockHost, h hpc, Bool.false_eq_true, if_false] at hend
    generalize hr : evalInsn bus _ _ _ = o at hend
    cases o with
    | none => cases hend
    | some r =>
        rw [Option.getD_some] at hend
        subst hend
        cases evalInsn_exit hr
  · rw [dif_neg hpc] at hend
    cases hend

/-- An iteration without a late reading is the iteration without a clock.  If it
does not end the run, it has made one reading. -/
theorem clocked_step (emit : BitVec 32 → π → Int × π) (prog : List MdioNlInsn)
    (bus : MiiBus β) {s : EvalState (Nat × π) β}
    (h : s.pc.toNat < prog.length → timeAfter (reading w (now s.host.1)) timeout = false) :
    evalStep prog bus (freeHost emit) (s.mapHost Prod.snd) =
        (evalStep prog bus (clockHost now timeout emit) s).map (·.mapHost Prod.snd)
          (·.mapHost Prod.snd) ∧
      ∀ s', evalStep prog bus (clockHost now timeout emit) s = .inl s' →
        s'.host.1 = s.host.1 + 1 := by
  unfold evalStep
  by_cases hpc : s.pc.toNat < prog.length
  · rw [dif_pos hpc, dif_pos (show (s.mapHost Prod.snd).pc.toNat < prog.length from hpc)]
    have hinsn := evalInsn_mapHost (clockHost now timeout emit) (freeHost emit) Prod.snd
      (fun _ _ => rfl) bus prog[s.pc.toNat] { s with host := (s.host.1 + 1, s.host.2) }
    have hclock : (clockHost now timeout emit).expired s.host =
        (false, (s.host.1 + 1, s.host.2)) := by
      simp only [clockHost, h hpc]
    simp only [hclock, Bool.false_eq_true, if_false]
    cases hr : evalInsn bus (clockHost now timeout emit) prog[s.pc.toNat]
        { s with host := (s.host.1 + 1, s.host.2) } with
    | none =>
        rw [hr] at hinsn
        refine ⟨?_, fun s' hs' => by cases hs'⟩
        change (evalInsn bus (freeHost emit) _ _).getD _ = _
        exact congrArg (Option.getD · _) hinsn
    | some r =>
        rw [hr] at hinsn
        constructor
        · change (evalInsn bus (freeHost emit) _ _).getD _ = _
          exact congrArg (Option.getD · _) hinsn
        · intro s' hs'
          rw [Option.getD_some] at hs'
          subst hs'
          rcases evalInsn_host hr with hsame | ⟨w, -, hsame⟩
          · rw [hsame]
          · rw [hsame]
            rfl
  · rw [dif_neg hpc, dif_neg (show ¬(s.mapHost Prod.snd).pc.toNat < prog.length from hpc)]
    exact ⟨rfl, fun s' hs' => by cases hs'⟩

/-- As long as no reading is late, a run is the run without a clock, and it has
made one reading in each iteration. -/
theorem clocked_run (emit : BitVec 32 → π → Int × π) (prog : List MdioNlInsn) (bus : MiiBus β)
    (n : Nat) {s : EvalState (Nat × π) β}
    (h : ∀ i < n, timeAfter (reading w (now (s.host.1 + i))) timeout = false) :
    (mdioNlEval prog bus (freeHost emit)).run n (s.mapHost Prod.snd) =
        ((mdioNlEval prog bus (clockHost now timeout emit)).run n s).map (·.mapHost Prod.snd)
          (·.mapHost Prod.snd) ∧
      ∀ s', (mdioNlEval prog bus (clockHost now timeout emit)).run n s = .inl s' →
        s'.host.1 = s.host.1 + n := by
  induction n generalizing s with
  | zero =>
      refine ⟨rfl, fun s' hs' => ?_⟩
      cases hs'
      rfl
  | succ n ih =>
      obtain ⟨hstep, hcount⟩ := clocked_step emit prog bus (fun _ => h 0 (Nat.succ_pos n))
      cases hs : evalStep prog bus (clockHost now timeout emit) s with
      | inl t =>
          rw [hs] at hstep
          have ht := hcount t hs
          obtain ⟨hrun, hread⟩ := ih (s := t) (fun i hi => by
            rw [ht, Nat.add_right_comm]
            exact h (i + 1) (by omega))
          rw [Machine.run_succ_of_step hstep, Machine.run_succ_of_step hs]
          refine ⟨hrun, fun s' hs' => ?_⟩
          rw [hread s' hs', ht]
          omega
      | inr r =>
          rw [hs] at hstep
          rw [Machine.run_succ_of_halt hstep, Machine.run_succ_of_halt hs]
          exact ⟨rfl, fun s' hs' => by cases hs'⟩

/-- The run with a clock ends after `j` iterations, with at most `k` instructions
executed.  It has emitted what the first `j` iterations emit without a clock.  A
timeout is a late reading; any other end is that of the run without a clock. -/
def EndsWithin (prog : List MdioNlInsn) (bus : MiiBus β) (emit : BitVec 32 → π → Int × π)
    (now : Nat → Nat) (timeout : BitVec (w + 1)) (deadline : Nat) (h₀ : π) (b₀ : β)
    (k : Nat) : Prop :=
  ∃ j s why ret h b,
    (mdioNlEval prog bus (clockHost now timeout emit)).run j (.entry (0, h₀) b₀) = .inl s ∧
    (mdioNlEval prog bus (clockHost now timeout emit)).step s = .inr (.returned why ret h b) ∧
    j + why.executed ≤ k ∧
    (mdioNlEval prog bus (freeHost emit)).run j (.entry h₀ b₀) = .inl (s.mapHost Prod.snd) ∧
    (why = .timeout → ret = -etimedout ∧ deadline < now j ∧ h.2 = s.host.2 ∧ b = s.bus) ∧
    (why ≠ .timeout → (mdioNlEval prog bus (freeHost emit)).step (s.mapHost Prod.snd) =
      .inr (.returned why ret h.2 b))

/-- What the deadline does to a run whose reading `k` is late.  It is compared
with the run of the same program without a clock. -/
structure StopsAtDeadline (prog : List MdioNlInsn) (bus : MiiBus β)
    (emit : BitVec 32 → π → Int × π) (now : Nat → Nat) (timeout : BitVec (w + 1))
    (deadline : Nat) (h₀ : π) (b₀ : β) (k : Nat) : Prop where
  ends : EndsWithin prog bus emit now timeout deadline h₀ b₀ k
  /-- A run without a clock that ends is the run with a clock if none of the
  readings up to its end is late. -/
  in_time : ∀ j s r, (mdioNlEval prog bus (freeHost emit)).run j (.entry h₀ b₀) = .inl s →
    (mdioNlEval prog bus (freeHost emit)).step s = .inr r → (∀ i < j, now i ≤ deadline) →
    (s.pc.toNat < prog.length → now j ≤ deadline) →
    ∃ r', r = r'.mapHost Prod.snd ∧
      (mdioNlEval prog bus (clockHost now timeout emit)).run (j + 1) (.entry (0, h₀) b₀) = .inr r'

section Compared

variable {deadline k : Nat} (h₀ : π) (b₀ : β)
  (hcmp : ∀ i ≤ k, timeAfter (reading w (now i)) timeout = true ↔ deadline < now i)
include hcmp

/-- The run ends at the latest with the first late reading. -/
theorem ends_of_compare (hvalid : ∀ i ∈ prog, mdioNlValidateInsn i = .ok ())
    (hlate : deadline < now k) :
    EndsWithin prog bus emit now timeout deadline h₀ b₀ k := by
  -- reading `m` is the first that is late
  have hex : ∃ i, deadline < now i := ⟨k, hlate⟩
  obtain ⟨m, ⟨hm, hfirst⟩⟩ : ∃ m, deadline < now m ∧ ∀ i < m, ¬deadline < now i :=
    ⟨Nat.find hex, Nat.find_spec hex, fun i hi => Nat.find_min hex hi⟩
  have hmk : m ≤ k := by
    by_contra hgt
    exact hfirst k (by omega) hlate
  have hnone : ∀ i < m, timeAfter
      (reading w (now ((EvalState.entry ((0, h₀) : Nat × π) b₀).host.1 + i))) timeout = false := by
    intro i hi
    rw [show (EvalState.entry ((0, h₀) : Nat × π) b₀).host.1 + i = i from Nat.zero_add i,
      Bool.eq_false_iff]
    exact fun ht => hfirst i hi ((hcmp i (by omega)).mp ht)
  obtain ⟨hfree, hcount⟩ := clocked_run emit prog bus m hnone
  cases hclocked : (mdioNlEval prog bus (clockHost now timeout emit)).run m
      (.entry (0, h₀) b₀) with
  | inl s =>
      rw [hclocked] at hfree
      have hread : s.host.1 = m := by
        rw [hcount s hclocked]
        exact Nat.zero_add m
      by_cases hpc : s.pc.toNat < prog.length
      · have hstop := clocked_late emit bus hpc
          ((hcmp s.host.1 (by omega)).mpr (by rw [hread]; exact hm))
        exact ⟨m, s, .timeout, _, _, _, hclocked, hstop, hmk, hfree,
          fun _ => ⟨rfl, hm, rfl, rfl⟩, fun h => (h rfl).elim⟩
      · exact ⟨m, s, .progEnd, _, _, _, hclocked, evalStep_end hpc, hmk, hfree,
          fun h => (by cases h), fun _ => evalStep_end hpc⟩
  | inr r =>
      -- the run has ended in front of that reading
      obtain ⟨j, hj, s, hs, hend⟩ := Machine.run_last hclocked
      have hnone' := fun i (hi : i < j) => hnone i (hi.trans hj)
      obtain ⟨hfree', hcount'⟩ := clocked_run emit prog bus j hnone'
      rw [hs] at hfree'
      have hread : s.host.1 = j := by
        rw [hcount' s hs]
        exact Nat.zero_add j
      have hin : s.pc.toNat < prog.length →
          timeAfter (reading w (now s.host.1)) timeout = false := by
        intro _
        rw [hread, ← Nat.zero_add j]
        exact hnone j hj
      obtain ⟨hlink, -⟩ := clocked_step emit prog bus hin
      rw [show evalStep prog bus (clockHost now timeout emit) s = .inr r from hend] at hlink
      cases r with
      | bug => exact (evalStep_ne_bug hvalid _ _ _ hend).elim
      | returned why ret h b =>
          have hwhy : why.executed ≤ 1 := by cases why <;> decide
          refine ⟨j, s, why, ret, h, b, hs, hend, by omega, hfree', ?_, fun _ => hlink⟩
          intro htimeout
          subst htimeout
          exact absurd rfl (evalStep_in_time hin hend)

/-- A run that ends without a late reading is the run without a clock. -/
theorem in_time_of_compare (hmono : Monotone now) (hlate : deadline < now k) {j : Nat}
    {s : EvalState π β} {r : EvalResult π β}
    (hrun : (mdioNlEval prog bus (freeHost emit)).run j (.entry h₀ b₀) = .inl s)
    (hstep : (mdioNlEval prog bus (freeHost emit)).step s = .inr r)
    (hbefore : ∀ i < j, now i ≤ deadline) (hlast : s.pc.toNat < prog.length → now j ≤ deadline) :
    ∃ h, r = h.mapHost Prod.snd ∧
      (mdioNlEval prog bus (clockHost now timeout emit)).run (j + 1) (.entry (0, h₀) b₀) =
        .inr h := by
  have hearly : ∀ i, now i ≤ deadline → timeAfter (reading w (now i)) timeout = false := by
    intro i hi
    have hik : i ≤ k := by
      by_contra hgt
      have := hmono (Nat.le_of_not_le hgt)
      omega
    rw [Bool.eq_false_iff]
    intro ht
    have := (hcmp i hik).mp ht
    omega
  have hnone : ∀ i < j, timeAfter
      (reading w (now ((EvalState.entry ((0, h₀) : Nat × π) b₀).host.1 + i))) timeout = false := by
    intro i hi
    rw [show (EvalState.entry ((0, h₀) : Nat × π) b₀).host.1 + i = i from Nat.zero_add i]
    exact hearly i (hbefore i hi)
  obtain ⟨hfree, hcount⟩ := clocked_run emit prog bus j hnone
  replace hfree := hrun.symm.trans hfree
  cases hclocked : (mdioNlEval prog bus (clockHost now timeout emit)).run j
      (.entry (0, h₀) b₀) with
  | inr r' => rw [hclocked] at hfree; cases hfree
  | inl s' =>
      rw [hclocked] at hfree
      have hs : s = s'.mapHost Prod.snd := Sum.inl.inj hfree
      have hread : s'.host.1 = j := by
        rw [hcount s' hclocked]
        exact Nat.zero_add j
      subst hs
      have hin : s'.pc.toNat < prog.length →
          timeAfter (reading w (now s'.host.1)) timeout = false := by
        intro hpc
        rw [hread]
        exact hearly j (hlast hpc)
      obtain ⟨hlink, -⟩ := clocked_step emit prog bus hin
      have hlink' := hlink.symm.trans hstep
      cases hend : evalStep prog bus (clockHost now timeout emit) s' with
      | inl t => rw [hend] at hlink'; cases hlink'
      | inr h =>
          rw [hend] at hlink'
          refine ⟨h, (Sum.inr.inj hlink').symm, ?_⟩
          rw [Machine.run_add_of_run hclocked 1]
          exact Machine.run_succ_of_halt hend 0

end Compared

/-- A program within the policy stops at its deadline.  The counter has any
width, starts at any time `t₀` and may wrap; the clock never goes back, and its
reading `k` is past the deadline by less than half the range. -/
theorem mdioNlEval_deadline (attr : ProgAttr) (hpol : mdioNlPolicyProg attr) (bus : MiiBus β)
    (emit : BitVec 32 → π → Int × π) (h₀ : π) (b₀ : β) (conv : MsecsToJiffies w)
    (timeoutMs : BitVec 32) (t₀ : Nat) (now : Nat → Nat) (hmono : Monotone now)
    (hstart : t₀ ≤ now 0) (k : Nat) (hlate : t₀ + conv.jiffies timeoutMs < now k)
    (hhalf : now k < t₀ + conv.jiffies timeoutMs + 2 ^ w) :
    StopsAtDeadline attr.insns bus emit now
      (reading w t₀ + BitVec.ofNat (w + 1) (conv.jiffies timeoutMs))
      (t₀ + conv.jiffies timeoutMs) h₀ b₀ k := by
  have hlt := conv.lt_half timeoutMs
  have htimeout : reading w t₀ + BitVec.ofNat (w + 1) (conv.jiffies timeoutMs) =
      reading w (t₀ + conv.jiffies timeoutMs) := (BitVec.ofNat_add _ _).symm
  have hcmp : ∀ i ≤ k, timeAfter (reading w (now i))
      (reading w (t₀ + conv.jiffies timeoutMs)) = true ↔ t₀ + conv.jiffies timeoutMs < now i := by
    intro i hi
    have hfrom := hmono (Nat.zero_le i)
    have hto := hmono hi
    exact timeAfter_iff (by omega) (by omega)
  rw [htimeout]
  exact ⟨ends_of_compare h₀ b₀ hcmp (mdioNlValidateProg_ok hpol.2) hlate,
    fun j s r hrun hstep => in_time_of_compare h₀ b₀ hcmp hmono hlate hrun hstep⟩

/-- A program that jumps to itself for ever, on a counter of three bits that
starts at 6 and wraps. -/
theorem mdioNlEval_deadline_wraps :
    StopsAtDeadline [insn .jeq (immArg 7) (immArg 7) (immArg (-1))] nullBus
      (fun _ (k : Nat) => (0, k)) (fun i => 6 + i) (reading 2 6 + BitVec.ofNat 3 3) 9 0 () 4 :=
  mdioNlEval_deadline ⟨8, [insn .jeq (immArg 7) (immArg 7) (immArg (-1))], rfl⟩
    ⟨by decide, rfl⟩ nullBus (fun _ k => (0, k)) 0 () (w := 2) ⟨fun _ => 3, fun _ => by decide⟩ 3 6
    (fun i => 6 + i) (fun _ _ h => Nat.add_le_add_left h 6) (by decide) 4 (by decide) (by decide)

end Clock

end MdioTools.Kernel
