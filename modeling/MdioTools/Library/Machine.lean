import Mathlib.Logic.Function.Basic
import Mathlib.Tactic.Common

/-!
# Deterministic step machines

A machine takes one step from a state: it moves to another state or halts with
a result.  This module gives the run of a machine for a number of steps, the
reachability and halting relations, and the two rules by which every later
proof about a run is made: an invariant of one step is an invariant of the run,
and two machines that match step by step match over whole runs.

Main results:

- Theorem {lit}`Machine.run_induct`: a predicate kept by one step holds along
  the run, and a predicate established by the halting step holds of the result.
- Theorem {lit}`Machine.Halts.unique`: a machine has at most one result.
- Theorem {lit}`Machine.run_rel`: a lockstep simulation extends from one step
  to runs of any length.
-/

namespace MdioTools.Library

/-- A deterministic machine with states `σ` and results `ρ`. -/
structure Machine (σ ρ : Type*) where
  step : σ → σ ⊕ ρ

namespace Machine

variable {σ ρ σ' ρ' : Type*}

/-- The run of at most `n` steps: the state after `n` steps, or the result. -/
def run (m : Machine σ ρ) : Nat → σ → σ ⊕ ρ
  | 0, s => .inl s
  | n + 1, s =>
      match m.step s with
      | .inl s' => run m n s'
      | .inr r => .inr r

/-- Some number of steps leads from `s` to `s'`. -/
def Reaches (m : Machine σ ρ) (s s' : σ) : Prop :=
  ∃ n, m.run n s = .inl s'

/-- Some number of steps leads from `s` to the result `r`. -/
def Halts (m : Machine σ ρ) (s : σ) (r : ρ) : Prop :=
  ∃ n, m.run n s = .inr r

variable {m : Machine σ ρ}

@[simp]
theorem run_zero (s : σ) : m.run 0 s = .inl s :=
  rfl

/-- A step is the first of a run. -/
theorem run_succ_of_step {s s' : σ} (h : m.step s = .inl s') (n : Nat) :
    m.run (n + 1) s = m.run n s' := by
  simp [run, h]

/-- A machine that halts needs no further steps. -/
theorem run_succ_of_halt {s : σ} {r : ρ} (h : m.step s = .inr r) (n : Nat) :
    m.run (n + 1) s = .inr r := by
  simp [run, h]

/-- Runs compose: `n + k` steps are `n` steps followed by `k` steps. -/
theorem run_add_of_run {n : Nat} {s s' : σ} (h : m.run n s = .inl s') (k : Nat) :
    m.run (n + k) s = m.run k s' := by
  induction n generalizing s with
  | zero =>
      simp only [run_zero, Sum.inl.injEq] at h
      rw [h, Nat.zero_add]
  | succ n ih =>
      rw [Nat.succ_add]
      cases hstep : m.step s with
      | inl t =>
          rw [run_succ_of_step hstep] at h ⊢
          exact ih h
      | inr r =>
          rw [run_succ_of_halt hstep] at h
          cases h

/-- A result is final: further steps do not change it. -/
theorem run_add_of_halted {n : Nat} {s : σ} {r : ρ} (h : m.run n s = .inr r) (k : Nat) :
    m.run (n + k) s = .inr r := by
  induction n generalizing s with
  | zero => cases h
  | succ n ih =>
      rw [Nat.succ_add]
      cases hstep : m.step s with
      | inl t =>
          rw [run_succ_of_step hstep] at h ⊢
          exact ih h
      | inr r' =>
          rw [run_succ_of_halt hstep] at h ⊢
          exact h

/-- A run that ends has a last state, and the step from there ends it. -/
theorem run_last {n : Nat} {s : σ} {r : ρ} (h : m.run n s = .inr r) :
    ∃ j < n, ∃ t, m.run j s = .inl t ∧ m.step t = .inr r := by
  induction n generalizing s with
  | zero => cases h
  | succ n ih =>
      cases hstep : m.step s with
      | inl s' =>
          rw [run_succ_of_step hstep] at h
          obtain ⟨j, hj, t, hrun, hlast⟩ := ih h
          exact ⟨j + 1, Nat.succ_lt_succ hj, t, (run_succ_of_step hstep j).trans hrun, hlast⟩
      | inr r' =>
          rw [run_succ_of_halt hstep] at h
          cases h
          exact ⟨0, Nat.succ_pos n, s, rfl, hstep⟩

/-- A state is reached from itself. -/
theorem Reaches.refl (s : σ) : m.Reaches s s :=
  ⟨0, rfl⟩

/-- The next state is reached. -/
theorem Reaches.single {s s' : σ} (h : m.step s = .inl s') : m.Reaches s s' :=
  ⟨1, by simp [run, h]⟩

/-- What is reached from a state that is reached. -/
theorem Reaches.trans {s t u : σ} (hst : m.Reaches s t) (htu : m.Reaches t u) :
    m.Reaches s u := by
  obtain ⟨n, hn⟩ := hst
  obtain ⟨k, hk⟩ := htu
  exact ⟨n + k, (run_add_of_run hn k).trans hk⟩

/-- A run that reaches a state halts as it does from there. -/
theorem Reaches.halts {s t : σ} {r : ρ} (hst : m.Reaches s t) (ht : m.Halts t r) :
    m.Halts s r := by
  obtain ⟨n, hn⟩ := hst
  obtain ⟨k, hk⟩ := ht
  exact ⟨n + k, (run_add_of_run hn k).trans hk⟩

/-- A state without a next one halts. -/
theorem Halts.single {s : σ} {r : ρ} (h : m.step s = .inr r) : m.Halts s r :=
  ⟨1, by simp [run, h]⟩

/-- A result is that of the next state. -/
theorem Halts.of_step {s s' : σ} {r : ρ} (h : m.Halts s r) (hstep : m.step s = .inl s') :
    m.Halts s' r := by
  obtain ⟨n, hn⟩ := h
  cases n with
  | zero => cases hn
  | succ n => exact ⟨n, (run_succ_of_step hstep n).symm.trans hn⟩

/-- A result is that of every state on the way. -/
theorem Halts.of_reaches {s t : σ} {r : ρ} (h : m.Halts s r) (hst : m.Reaches s t) :
    m.Halts t r := by
  obtain ⟨n, hn⟩ := hst
  induction n generalizing s with
  | zero =>
      cases hn
      exact h
  | succ n ih =>
      cases hstep : m.step s with
      | inl s' =>
          rw [run_succ_of_step hstep] at hn
          exact ih (h.of_step hstep) hn
      | inr r' =>
          rw [run_succ_of_halt hstep] at hn
          cases hn

/-- A machine has at most one result. -/
theorem Halts.unique {s : σ} {r r' : ρ} (h : m.Halts s r) (h' : m.Halts s r') : r = r' := by
  obtain ⟨n, hn⟩ := h
  obtain ⟨k, hk⟩ := h'
  have hleft := run_add_of_halted hn k
  have hright := run_add_of_halted hk n
  rw [Nat.add_comm k n, hleft] at hright
  exact Sum.inr.inj hright

/-- What one step keeps holds along a run, and what the halting step
establishes holds of the result. -/
theorem run_induct {I : σ → Prop} {Q : ρ → Prop}
    (hstep : ∀ s s', I s → m.step s = .inl s' → I s')
    (hhalt : ∀ s r, I s → m.step s = .inr r → Q r) {s : σ} (hs : I s) (n : Nat) :
    (∀ s', m.run n s = .inl s' → I s') ∧ (∀ r, m.run n s = .inr r → Q r) := by
  induction n generalizing s with
  | zero =>
      constructor
      · intro s' h
        simp only [run_zero, Sum.inl.injEq] at h
        exact h ▸ hs
      · intro r h
        cases h
  | succ n ih =>
      cases hnext : m.step s with
      | inl t =>
          rw [run_succ_of_step hnext]
          exact ih (hstep s t hs hnext)
      | inr r =>
          rw [run_succ_of_halt hnext]
          constructor
          · intro s' h
            cases h
          · intro r' h
            cases h
            exact hhalt s r hs hnext

/-- What every step preserves holds of every state that is reached. -/
theorem Reaches.invariant {I : σ → Prop}
    (hstep : ∀ s s', I s → m.step s = .inl s' → I s') {s s' : σ} (hs : I s)
    (h : m.Reaches s s') : I s' := by
  obtain ⟨n, hn⟩ := h
  exact (run_induct (Q := fun _ => True) hstep (fun _ _ _ _ => trivial) hs n).1 s' hn

/-- What every step preserves says what a run halts with. -/
theorem Halts.invariant {I : σ → Prop} {Q : ρ → Prop}
    (hstep : ∀ s s', I s → m.step s = .inl s' → I s')
    (hhalt : ∀ s r, I s → m.step s = .inr r → Q r) {s : σ} {r : ρ} (hs : I s)
    (h : m.Halts s r) : Q r := by
  obtain ⟨n, hn⟩ := h
  exact (run_induct hstep hhalt hs n).2 r hn

/-- Two step results match when both move to related states or both halt with
related results. -/
def Match (R : σ → σ' → Prop) (Q : ρ → ρ' → Prop) : σ ⊕ ρ → σ' ⊕ ρ' → Prop
  | .inl s, .inl s' => R s s'
  | .inr r, .inr r' => Q r r'
  | _, _ => False

section Match

variable {R : σ → σ' → Prop} {Q : ρ → ρ' → Prop}

/-- What moves is matched by what moves. -/
theorem Match.of_inl {s : σ} {y : σ' ⊕ ρ'} (h : Match R Q (.inl s) y) :
    ∃ s', y = .inl s' ∧ R s s' := by
  cases y with
  | inl s' => exact ⟨s', rfl, h⟩
  | inr r' => exact h.elim

/-- What halts is matched by what halts. -/
theorem Match.of_inr {r : ρ} {y : σ' ⊕ ρ'} (h : Match R Q (.inr r) y) :
    ∃ r', y = .inr r' ∧ Q r r' := by
  cases y with
  | inl s' => exact h.elim
  | inr r' => exact ⟨r', rfl, h⟩

/-- What moves matches only what moves. -/
theorem Match.to_inl {x : σ ⊕ ρ} {s' : σ'} (h : Match R Q x (.inl s')) :
    ∃ s, x = .inl s ∧ R s s' := by
  cases x with
  | inl s => exact ⟨s, rfl, h⟩
  | inr r => exact h.elim

/-- What halts matches only what halts. -/
theorem Match.to_inr {x : σ ⊕ ρ} {r' : ρ'} (h : Match R Q x (.inr r')) :
    ∃ r, x = .inr r ∧ Q r r' := by
  cases x with
  | inl s => exact h.elim
  | inr r => exact ⟨r, rfl, h⟩

end Match

/-- A lockstep simulation extends from one step to runs of any length. -/
theorem run_rel {m' : Machine σ' ρ'} {R : σ → σ' → Prop} {Q : ρ → ρ' → Prop}
    (hstep : ∀ s s', R s s' → Match R Q (m.step s) (m'.step s')) {s : σ} {s' : σ'}
    (hs : R s s') (n : Nat) : Match R Q (m.run n s) (m'.run n s') := by
  induction n generalizing s s' with
  | zero => exact hs
  | succ n ih =>
      have hmatch := hstep s s' hs
      cases hleft : m.step s with
      | inl t =>
          rw [hleft] at hmatch
          obtain ⟨t', hright, ht⟩ := hmatch.of_inl
          rw [run_succ_of_step hleft, run_succ_of_step hright]
          exact ih ht
      | inr r =>
          rw [hleft] at hmatch
          obtain ⟨r', hright, hr⟩ := hmatch.of_inr
          rw [run_succ_of_halt hleft, run_succ_of_halt hright]
          exact hr

end Machine

end MdioTools.Library
