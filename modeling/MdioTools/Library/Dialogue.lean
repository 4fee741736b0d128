import Mathlib.Data.List.Infix

/-!
# Questions over one connection

A client sends questions over a connection and reads packets until one of them
brings a result.  Whatever it has not read by then is what it reads first when it
waits for its next answer.

Main results:

- Definition {lit}`Question.ask`: a question with some packets unread.
- Theorem {lit}`ask_late`: behind unread packets no question is answered.
- Theorem {lit}`talk_inStep_iff`: a run keeps in step exactly when each client has
  read its whole answer.
-/

namespace MdioTools.Library

variable {P σ ρ : Type*}

/-- What a client makes of a packet: a result, or it goes on. -/
abbrev Handler (P σ ρ : Type*) : Type _ :=
  P → σ → Option ρ × σ

/-- Read packets until one of them brings a result; behind the last one the client
waits. -/
def readUntil (handle : Handler P σ ρ) : List P → σ → Option ρ × σ × List P
  | [], s => (none, s, [])
  | p :: rest, s =>
      match handle p s with
      | (some r, s') => (some r, s', rest)
      | (none, s') => readUntil handle rest s'

/-- A question: how the packets are handled, the result when it cannot be sent, and
the packets of the answer, if it can. -/
structure Question (P σ ρ : Type*) where
  handle : Handler P σ ρ
  failed : ρ
  answer : Option (List P)

namespace Question

/-- Send the question and wait for the result. -/
def ask (q : Question P σ ρ) (unread : List P) (s : σ) : Option ρ × σ × List P :=
  match q.answer with
  | none => (some q.failed, s, unread)
  | some answer => readUntil q.handle (unread ++ answer) s

/-- The client reads the whole answer when there is nothing else to read. -/
def Attentive (q : Question P σ ρ) (s : σ) : Prop :=
  (q.ask [] s).2.2 = []

end Question

/-- Questions one after another: the state, and the packets that are unread. -/
def talk (qs : List (Question P σ ρ)) (unread : List P) (s : σ) : σ × List P :=
  qs.foldl (fun x q => (q.ask x.2 x.1).2) (s, unread)

/-- The state when each client reads its own answer only. -/
def talkAlone (qs : List (Question P σ ρ)) (s : σ) : σ :=
  qs.foldl (fun s q => (q.ask [] s).2.1) s

/-- Each client reads the whole of its own answer. -/
def AllAttentive : List (Question P σ ρ) → σ → Prop
  | [], _ => True
  | q :: qs, s => q.Attentive s ∧ AllAttentive qs (q.ask [] s).2.1

/-- Every answer ends with a packet that is final, and a final packet brings each
of the clients a result. -/
structure Closes (final : P → Prop) (qs : List (Question P σ ρ)) : Prop where
  last : ∀ q ∈ qs, ∀ answer, q.answer = some answer → ∃ front p, answer = front ++ [p] ∧ final p
  ends : ∀ q ∈ qs, ∀ p s, final p → (q.handle p s).1 ≠ none

theorem Closes.tail {final : P → Prop} {q : Question P σ ρ} {qs : List (Question P σ ρ)}
    (h : Closes final (q :: qs)) : Closes final qs where
  last q' hq' := h.last q' (List.mem_cons_of_mem _ hq')
  ends q' hq' := h.ends q' (List.mem_cons_of_mem _ hq')

/-! ## Reading -/

theorem readUntil_suffix (handle : Handler P σ ρ) (packets : List P) (s : σ) :
    (readUntil handle packets s).2.2 <:+ packets := by
  induction packets generalizing s with
  | nil => exact List.suffix_refl _
  | cons p rest ih =>
      unfold readUntil
      split
      · exact List.suffix_cons p rest
      · exact (ih _).trans (List.suffix_cons p rest)

/-- What comes behind the packet with the result is not looked at. -/
theorem readUntil_append {handle : Handler P σ ρ} {front : List P} {s s' : σ} {r : ρ}
    {rest : List P} (h : readUntil handle front s = (some r, s', rest)) (back : List P) :
    readUntil handle (front ++ back) s = (some r, s', rest ++ back) := by
  induction front generalizing s with
  | nil => cases h
  | cons p front ih =>
      rw [List.cons_append]
      unfold readUntil at h ⊢
      cases hp : handle p s with
      | mk r' t =>
          rw [hp] at h
          cases r' with
          | some r' =>
              cases h
              rfl
          | none => exact ih h

/-- A final packet at the end brings a result at the latest; it is still there if the
result came before. -/
theorem readUntil_final {handle : Handler P σ ρ} {p : P} (hp : ∀ s, (handle p s).1 ≠ none)
    (front : List P) (s : σ) : ∃ r s' rest, readUntil handle (front ++ [p]) s = (some r, s', rest) ∧
      (rest = [] ∨ ∃ front', rest = front' ++ [p]) := by
  induction front generalizing s with
  | nil =>
      cases hh : handle p s with
      | mk r t =>
          cases r with
          | none => exact absurd (congrArg Prod.fst hh) (hp s)
          | some r => exact ⟨r, t, [], by simp [readUntil, hh], Or.inl rfl⟩
  | cons p' front ih =>
      cases hh : handle p' s with
      | mk r t =>
          cases r with
          | none =>
              obtain ⟨r, s', rest, hread, hrest⟩ := ih t
              exact ⟨r, s', rest, by simp [readUntil, hh, hread], hrest⟩
          | some r => exact ⟨r, t, front ++ [p], by simp [readUntil, hh], Or.inr ⟨front, rfl⟩⟩

/-! ## One question -/

variable {final : P → Prop} {qs : List (Question P σ ρ)} {q : Question P σ ρ}

/-- A question behind unread packets, the last of which is final: the client reads
some of these, its own answer is unread, and what is unread still ends with a final
packet.  The result is that of the unread packets if the question can be sent. -/
theorem ask_late (h : Closes final qs) (hq : q ∈ qs) {unread front : List P} {p : P}
    (hunread : unread = front ++ [p]) (hp : final p) (s : σ) :
    ∃ r s' left, q.ask unread s = (some r, s', left ++ q.answer.getD []) ∧ left <:+ unread ∧
      (∃ front' p', left ++ q.answer.getD [] = front' ++ [p'] ∧ final p') ∧
      ((r, s') = (q.failed, s) ∨ readUntil q.handle unread s = (some r, s', left)) := by
  unfold Question.ask
  cases hanswer : q.answer with
  | none =>
      exact ⟨q.failed, s, unread, by simp, List.suffix_refl _, ⟨front, p, by simpa, hp⟩, Or.inl rfl⟩
  | some answer =>
      obtain ⟨r, s', rest, hread, -⟩ := readUntil_final (fun s => h.ends q hq p s hp) front s
      rw [← hunread] at hread
      obtain ⟨front', p', rfl, hp'⟩ := h.last q hq answer hanswer
      have hsuffix := readUntil_suffix q.handle unread s
      rw [hread] at hsuffix
      exact ⟨r, s', rest, readUntil_append hread _, hsuffix, ⟨rest ++ front', p', by simp, hp'⟩,
        Or.inr hread⟩

/-- A question with nothing unread: what is left ends with a final packet. -/
theorem ask_fresh (h : Closes final qs) (hq : q ∈ qs) (s : σ) :
    ∃ r, (q.ask [] s).1 = some r ∧
      ((q.ask [] s).2.2 = [] ∨ ∃ front p, (q.ask [] s).2.2 = front ++ [p] ∧ final p) := by
  unfold Question.ask
  cases hanswer : q.answer with
  | none => exact ⟨q.failed, rfl, Or.inl rfl⟩
  | some answer =>
      obtain ⟨front, p, rfl, hp⟩ := h.last q hq answer hanswer
      obtain ⟨r, s', rest, hread, hrest⟩ := readUntil_final (fun s => h.ends q hq p s hp) front s
      simp only [List.nil_append, hread]
      refine ⟨r, rfl, hrest.imp_right ?_⟩
      rintro ⟨front', rfl⟩
      exact ⟨front', p, rfl, hp⟩

/-! ## Whole runs -/

theorem talk_cons (q : Question P σ ρ) (qs : List (Question P σ ρ)) (unread : List P) (s : σ) :
    talk (q :: qs) unread s = talk qs (q.ask unread s).2.2 (q.ask unread s).2.1 :=
  rfl

/-- Once a client is behind, the connection is never empty again. -/
theorem talk_late (h : Closes final qs) {unread front : List P} {p : P}
    (hunread : unread = front ++ [p]) (hp : final p) (s : σ) :
    ∃ front' p', (talk qs unread s).2 = front' ++ [p'] ∧ final p' := by
  induction qs generalizing unread front p s with
  | nil => exact ⟨front, p, hunread, hp⟩
  | cons q qs ih =>
      obtain ⟨r, s', left, hask, -, ⟨front', p', hleft, hp'⟩, -⟩ :=
        ask_late h List.mem_cons_self hunread hp s
      rw [talk_cons, hask]
      exact ih h.tail hleft hp' s'

/-- What is unread behind questions ends with a final packet. -/
theorem talk_final (h : Closes final qs) (s : σ) :
    (talk qs [] s).2 = [] ∨ ∃ front p, (talk qs [] s).2 = front ++ [p] ∧ final p := by
  induction qs generalizing s with
  | nil => exact Or.inl rfl
  | cons q qs ih =>
      obtain ⟨r, -, hnil | ⟨front, p, hleft, hp⟩⟩ := ask_fresh h List.mem_cons_self s
      · rw [talk_cons, hnil]
        exact ih h.tail _
      · exact Or.inr (talk_late h.tail hleft hp _)

/-- What is unread has been so from the start, or belongs to an answer. -/
theorem talk_unread {unread : List P} {s : σ} {p : P} (hp : p ∈ (talk qs unread s).2) :
    p ∈ unread ∨ ∃ q ∈ qs, ∃ answer, q.answer = some answer ∧ p ∈ answer := by
  induction qs generalizing unread s with
  | nil => exact Or.inl hp
  | cons q qs ih =>
      rw [talk_cons] at hp
      rcases ih hp with hask | ⟨q', hq', answer, hanswer, hmem⟩
      · unfold Question.ask at hask
        cases hanswer : q.answer with
        | none =>
            rw [hanswer] at hask
            exact Or.inl hask
        | some answer =>
            rw [hanswer] at hask
            rcases List.mem_append.mp ((readUntil_suffix _ _ _).subset hask) with hmem | hmem
            · exact Or.inl hmem
            · exact Or.inr ⟨q, List.mem_cons_self, answer, hanswer, hmem⟩
      · exact Or.inr ⟨q', List.mem_cons_of_mem _ hq', answer, hanswer, hmem⟩

/-- While the clients are attentive, each reads its own answer only. -/
theorem talk_inStep {qs : List (Question P σ ρ)} {s : σ} (h : AllAttentive qs s) :
    talk qs [] s = (talkAlone qs s, []) := by
  induction qs generalizing s with
  | nil => rfl
  | cons q qs ih =>
      rw [talk_cons, h.1, ih h.2]
      rfl

/-- At the end nothing is unread exactly when all clients have been attentive; else
what is unread ends with a final packet. -/
theorem talk_inStep_iff (h : Closes final qs) (s : σ) :
    (talk qs [] s).2 = [] ↔ AllAttentive qs s := by
  induction qs generalizing s with
  | nil => exact iff_of_true rfl trivial
  | cons q qs ih =>
      obtain ⟨r, -, hleft⟩ := ask_fresh h List.mem_cons_self s
      rw [talk_cons, AllAttentive, Question.Attentive]
      rcases hleft with hnil | ⟨front, p, hleft, hp⟩
      · rw [hnil, ih h.tail]
        simp
      · obtain ⟨front', p', hlate, -⟩ := talk_late h.tail hleft hp (q.ask [] s).2.1
        rw [hlate, hleft]
        simp

end MdioTools.Library
