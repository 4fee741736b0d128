import MdioTools.Library.Machine
import Mathlib.Data.List.Dedup

/-!
# Threads that share a resource under a lock

Threads run the same code over their own local states.  An action of a thread
is local, takes or releases the one lock, accesses the shared resource, or is
to halt.  Nothing in the semantics ties accesses to the lock: that is a
discipline, stated over the phases of the code, of which each thread has one
critical section.  Threads that keep to it run as if one after another, in the
order in which they took the lock.

Main results:

- Theorem {lit}`Served.step`: what one step of any thread preserves.
- Theorem {lit}`reaches_served`: the state of every interleaving is that of a
  serial run of the threads served so far.
- Theorem {lit}`Discipline.access_holds`: the resource is accessed by the holder
  of the lock only.
- Theorem {lit}`Discipline.progress`: the threads never get stuck.
- Theorem {lit}`Discipline.serializable`: a finished interleaving has the
  results of a serial run.
- Theorems {lit}`follow_served` and {lit}`lockOrder_realTime`: the serial run of a
  schedule is in the order in which the threads take the lock.
-/

namespace MdioTools.Library

/-- What a thread does next, with local states `L` and a resource `S`. -/
inductive Act (L S : Type*)
  | silent (next : L)
  | lock (next : L)
  | unlock (next : L)
  | access (f : S → L × S)
  | halt

variable {ι L S : Type*}

/-! ## A thread on its own -/

/-- One thread alone with the resource, with nobody else to hold the lock. -/
def soloStep (code : L → Act L S) (x : L × S) : (L × S) ⊕ (L × S) :=
  match code x.1 with
  | .silent next => .inl (next, x.2)
  | .lock next => .inl (next, x.2)
  | .unlock next => .inl (next, x.2)
  | .access f => .inl (f x.2)
  | .halt => .inr x

/-- The run of one thread on its own. -/
def solo (code : L → Act L S) : Machine (L × S) (L × S) where
  step := soloStep code

/-! ## Interleavings -/

/-- The state of all threads, the lock and the resource. -/
structure Conc (ι L S : Type*) where
  locals : ι → L
  holder : Option ι
  shared : S

variable [DecidableEq ι]

/-- Thread `i` takes a step; it waits only for the lock. -/
inductive Step (code : L → Act L S) (i : ι) : Conc ι L S → Conc ι L S → Prop
  | silent {c : Conc ι L S} {next : L} (h : code (c.locals i) = .silent next) :
      Step code i c { c with locals := Function.update c.locals i next }
  | lock {c : Conc ι L S} {next : L} (h : code (c.locals i) = .lock next)
      (hfree : c.holder = none) :
      Step code i c { c with
        locals := Function.update c.locals i next
        holder := some i }
  | unlock {c : Conc ι L S} {next : L} (h : code (c.locals i) = .unlock next) :
      Step code i c { c with
        locals := Function.update c.locals i next
        holder := none }
  | access {c : Conc ι L S} {f : S → L × S} (h : code (c.locals i) = .access f) :
      Step code i c { c with
        locals := Function.update c.locals i (f c.shared).1
        shared := (f c.shared).2 }

/-- The step of thread `i`, if it can take one. -/
def Conc.move (code : L → Act L S) (i : ι) (c : Conc ι L S) : Option (Conc ι L S) :=
  match code (c.locals i) with
  | .silent next => some { c with locals := Function.update c.locals i next }
  | .lock next =>
      if c.holder = none then
        some { c with
          locals := Function.update c.locals i next
          holder := some i }
      else none
  | .unlock next => some { c with
      locals := Function.update c.locals i next
      holder := none }
  | .access f => some { c with
      locals := Function.update c.locals i (f c.shared).1
      shared := (f c.shared).2 }
  | .halt => none

/-- A move is a step of the thread. -/
theorem Conc.move_step {code : L → Act L S} {i : ι} {c c' : Conc ι L S}
    (h : c.move code i = some c') : Step code i c c' := by
  unfold Conc.move at h
  split at h
  · cases h
    exact .silent (by assumption)
  · split at h
    · cases h
      exact .lock (by assumption) (by assumption)
    · cases h
  · cases h
    exact .unlock (by assumption)
  · cases h
    exact .access (by assumption)
  · cases h

/-- Some interleaving of steps of the threads leads from one state to
another. -/
inductive Interleaving (code : L → Act L S) : Conc ι L S → Conc ι L S → Prop
  | refl (c : Conc ι L S) : Interleaving code c c
  | step {c d d' : Conc ι L S} {i : ι} (h : Interleaving code c d) (hstep : Step code i d d') :
      Interleaving code c d'

/-- The steps of the threads named by a schedule, if each can take its step. -/
def Conc.follow (code : L → Act L S) (schedule : List ι) (c : Conc ι L S) :
    Option (Conc ι L S) :=
  schedule.foldlM (fun c i => c.move code i) c

/-- Interleavings are put one behind another. -/
theorem Interleaving.trans {code : L → Act L S} {c d e : Conc ι L S}
    (h : Interleaving code c d) (h' : Interleaving code d e) : Interleaving code c e := by
  induction h' with
  | refl => exact h
  | step _ hstep ih => exact .step ih hstep

/-- What a schedule leads to is reached by an interleaving. -/
theorem Conc.follow_interleaving {code : L → Act L S} {schedule : List ι} {c c' : Conc ι L S}
    (h : c.follow code schedule = some c') : Interleaving code c c' := by
  induction schedule generalizing c with
  | nil =>
      cases h
      exact .refl _
  | cons i rest ih =>
      simp only [Conc.follow, List.foldlM_cons, Option.bind_eq_bind, Option.bind_eq_some_iff] at h
      obtain ⟨d, hmove, hrest⟩ := h
      exact (Interleaving.step (.refl c) (Conc.move_step hmove)).trans (ih hrest)

/-- All threads at their starts, with the lock free. -/
def Conc.start (locals : ι → L) (s : S) : Conc ι L S where
  locals := locals
  holder := none
  shared := s

/-! ## The discipline -/

/-- Where a thread is with respect to its critical section. -/
inductive Phase
  | before | inside | after
deriving DecidableEq

/-- Code that takes the lock once, accesses the resource inside only, and
halts outside only.  The local states it is about satisfy `inv`. -/
structure Discipline (code : L → Act L S) (phase : L → Phase) (inv : L → Prop) : Prop where
  silent : ∀ {l next}, inv l → code l = .silent next → inv next ∧ phase next = phase l
  lock : ∀ {l next}, inv l → code l = .lock next →
    inv next ∧ phase l = .before ∧ phase next = .inside
  unlock : ∀ {l next}, inv l → code l = .unlock next →
    inv next ∧ phase l = .inside ∧ phase next = .after
  access : ∀ {l f}, inv l → code l = .access f →
    phase l = .inside ∧ ∀ s, inv (f s).1 ∧ phase (f s).1 = .inside
  halt : ∀ {l}, inv l → code l = .halt → phase l ≠ .inside

/-- What the discipline asks of the action of a thread at `l`. -/
def Act.Keeps (phase : L → Phase) (inv : L → Prop) (l : L) : Act L S → Prop
  | .silent next => inv next ∧ phase next = phase l
  | .lock next => inv next ∧ phase l = .before ∧ phase next = .inside
  | .unlock next => inv next ∧ phase l = .inside ∧ phase next = .after
  | .access f => phase l = .inside ∧ ∀ s, inv (f s).1 ∧ phase (f s).1 = .inside
  | .halt => phase l ≠ .inside

/-- The discipline is kept when it is kept at each local state. -/
theorem Discipline.of_keeps {code : L → Act L S} {phase : L → Phase} {inv : L → Prop}
    (h : ∀ l, inv l → (code l).Keeps phase inv l) : Discipline code phase inv := by
  constructor
  case silent =>
    intro l next hl hcode
    simpa only [hcode, Act.Keeps] using h l hl
  case lock =>
    intro l next hl hcode
    simpa only [hcode, Act.Keeps] using h l hl
  case unlock =>
    intro l next hl hcode
    simpa only [hcode, Act.Keeps] using h l hl
  case access =>
    intro l f hl hcode
    simpa only [hcode, Act.Keeps] using h l hl
  case halt =>
    intro l hl hcode
    simpa only [hcode, Act.Keeps] using h l hl

/-! ## Serial runs -/

/-- The threads run one after another, each from its start to the local state
given for it. -/
def SerialTo (code : L → Act L S) (start locals : ι → L) : List ι → S → S → Prop
  | [], s, s' => s' = s
  | i :: rest, s, s' => ∃ mid, (solo code).Reaches (start i, s) (locals i, mid) ∧
      SerialTo code start locals rest mid s'

variable {code : L → Act L S} {phase : L → Phase} {inv : L → Prop} {start : ι → L}

omit [DecidableEq ι] in
/-- Serial runs are put one behind another. -/
theorem serialTo_append {locals : ι → L} {is js : List ι} {s s' : S} :
    SerialTo code start locals (is ++ js) s s' ↔
      ∃ mid, SerialTo code start locals is s mid ∧ SerialTo code start locals js mid s' := by
  induction is generalizing s with
  | nil => simp [SerialTo]
  | cons i is ih =>
      simp only [List.cons_append, SerialTo, ih]
      constructor
      · rintro ⟨mid, hi, mid', his, hjs⟩
        exact ⟨mid', ⟨mid, hi, his⟩, hjs⟩
      · rintro ⟨mid', ⟨mid, hi, his⟩, hjs⟩
        exact ⟨mid, hi, mid', his, hjs⟩

/-- A step of a thread that does not touch the resource belongs to its part of
the serial run. -/
theorem SerialTo.update {locals : ι → L} {i : ι} {next : L}
    (hnext : ∀ s, (solo code).Reaches (locals i, s) (next, s)) {is : List ι} {s s' : S}
    (h : SerialTo code start locals is s s') :
    SerialTo code start (Function.update locals i next) is s s' := by
  induction is generalizing s with
  | nil => exact h
  | cons j is ih =>
      obtain ⟨mid, hj, his⟩ := h
      refine ⟨mid, ?_, ih his⟩
      by_cases hij : j = i
      · subst hij
        rw [Function.update_self]
        exact hj.trans (hnext mid)
      · rw [Function.update_of_ne hij]
        exact hj

/-- A step of a thread that is not in a serial run does not change the run. -/
theorem SerialTo.update_of_notMem {locals : ι → L} {i : ι} {next : L} {is : List ι}
    (hi : i ∉ is) {s s' : S} (h : SerialTo code start locals is s s') :
    SerialTo code start (Function.update locals i next) is s s' := by
  induction is generalizing s with
  | nil => exact h
  | cons j is ih =>
      obtain ⟨mid, hj, his⟩ := h
      have hij : j ≠ i := fun heq => hi (heq ▸ List.mem_cons_self)
      refine ⟨mid, ?_, ih (fun hmem => hi (List.mem_cons_of_mem _ hmem)) his⟩
      rw [Function.update_of_ne hij]
      exact hj

omit [DecidableEq ι] in
/-- Each thread of a serial run has come where it is on its own. -/
theorem SerialTo.reaches {locals : ι → L} {is : List ι} {s s' : S}
    (h : SerialTo code start locals is s s') {i : ι} (hi : i ∈ is) :
    ∃ t t', (solo code).Reaches (start i, t) (locals i, t') := by
  induction is generalizing s with
  | nil => cases hi
  | cons j is ih =>
      obtain ⟨mid, hj, his⟩ := h
      rcases List.mem_cons.mp hi with rfl | hi
      · exact ⟨s, mid, hj⟩
      · exact ih his hi

/-! ## The invariant of interleavings -/

/-- The threads in `served` have taken the lock, in this order; the state is
that of their serial run, and the holder of the lock is the last of them. -/
structure Served (code : L → Act L S) (phase : L → Phase) (inv : L → Prop) (start : ι → L)
    (s : S) (c : Conc ι L S) (served : List ι) : Prop where
  nodup : served.Nodup
  inv : ∀ i, inv (c.locals i)
  waiting : ∀ i, i ∉ served → phase (c.locals i) = .before ∧
    ∀ s, (solo code).Reaches (start i, s) (c.locals i, s)
  free : c.holder = none → ∀ i ∈ served, phase (c.locals i) = .after
  held : ∀ i, c.holder = some i → ∃ earlier, served = earlier ++ [i] ∧
    phase (c.locals i) = .inside ∧ ∀ j ∈ earlier, phase (c.locals j) = .after
  serial : SerialTo code start c.locals served s c.shared

/-- The thread inside its critical section is the holder of the lock. -/
theorem Served.holder_of_inside {s : S} {c : Conc ι L S} {served : List ι}
    (h : Served code phase inv start s c served) {i : ι} (hi : phase (c.locals i) = .inside) :
    c.holder = some i := by
  have hmem : i ∈ served := by
    by_contra hnot
    have := (h.waiting i hnot).1
    rw [hi] at this
    cases this
  cases hholder : c.holder with
  | none =>
      have := h.free hholder i hmem
      rw [hi] at this
      cases this
  | some j =>
      obtain ⟨earlier, rfl, -, hearlier⟩ := h.held j hholder
      rcases List.mem_append.mp hmem with hmem | hmem
      · have := hearlier i hmem
        rw [hi] at this
        cases this
      · rw [List.mem_singleton.mp hmem]

omit [DecidableEq ι] in
/-- A served thread is past the start of its critical section. -/
theorem Served.not_before {s : S} {c : Conc ι L S} {served : List ι}
    (h : Served code phase inv start s c served) {i : ι} (hi : i ∈ served) :
    phase (c.locals i) ≠ .before := by
  cases hholder : c.holder with
  | none => simp [h.free hholder i hi]
  | some j =>
      obtain ⟨earlier, rfl, hinside, hearlier⟩ := h.held j hholder
      rcases List.mem_append.mp hi with hi | hi
      · simp [hearlier i hi]
      · rw [List.mem_singleton.mp hi, hinside]
        simp

omit [DecidableEq ι] in
/-- Every thread has come where it is on its own. -/
theorem Served.reaches {s : S} {c : Conc ι L S} {served : List ι}
    (h : Served code phase inv start s c served) (i : ι) :
    ∃ t t', (solo code).Reaches (start i, t) (c.locals i, t') := by
  by_cases hi : i ∈ served
  · exact h.serial.reaches hi
  · exact ⟨s, s, (h.waiting i hi).2 s⟩

omit [DecidableEq ι] in
/-- The threads that were served are past their critical sections, except for the
holder of the lock. -/
theorem Served.split {s : S} {c : Conc ι L S} {served : List ι}
    (h : Served code phase inv start s c served) : ∃ past rest, served = past ++ rest ∧
      (∀ i ∈ past, phase (c.locals i) = .after) ∧ (∀ i ∈ rest, phase (c.locals i) = .inside) ∧
      (c.holder = none → rest = []) := by
  cases hholder : c.holder with
  | none =>
      exact ⟨served, [], by simp, h.free hholder, by simp, fun _ => rfl⟩
  | some j =>
      obtain ⟨earlier, heq, hinside, hearlier⟩ := h.held j hholder
      refine ⟨earlier, [j], heq, hearlier, fun i hi => ?_, fun hnone => by cases hnone⟩
      rw [List.mem_singleton.mp hi]
      exact hinside

/-- What holds of the locals when one thread moves. -/
theorem update_cases {P : L → Prop} {locals : ι → L} {i j : ι} {next : L}
    (hself : j = i → P next) (hother : j ≠ i → P (locals j)) :
    P (Function.update locals i next j) := by
  by_cases hj : j = i
  · subst hj
    rw [Function.update_self]
    exact hself rfl
  · rw [Function.update_of_ne hj]
    exact hother hj

/-- A step without the state keeps what has been served. -/
theorem Served.silent (hd : Discipline code phase inv) {s : S} {c : Conc ι L S}
    {served : List ι} (h : Served code phase inv start s c served) {i : ι} {next : L}
    (hcode : code (c.locals i) = .silent next) :
    Served code phase inv start s { c with locals := Function.update c.locals i next }
      served := by
  obtain ⟨hinv, hphase⟩ := hd.silent (h.inv i) hcode
  have hsolo : ∀ s, (solo code).Reaches (c.locals i, s) (next, s) := fun s =>
    Machine.Reaches.single (by simp [solo, soloStep, hcode])
  have hsame : ∀ j, phase (Function.update c.locals i next j) = phase (c.locals j) := fun j =>
    update_cases (P := fun l => phase l = phase (c.locals j)) (fun hj => hj ▸ hphase)
      fun _ => rfl
  constructor
  · exact h.nodup
  · exact fun j => update_cases (fun _ => hinv) fun _ => h.inv j
  · intro j hj
    obtain ⟨hbefore, hreach⟩ := h.waiting j hj
    refine ⟨(hsame j).trans hbefore, fun t => ?_⟩
    refine update_cases (P := fun l => (solo code).Reaches (start j, t) (l, t)) ?_ fun _ => hreach t
    rintro rfl
    exact (hreach t).trans (hsolo t)
  · exact fun hholder j hj => (hsame j).trans (h.free hholder j hj)
  · intro j hholder
    obtain ⟨earlier, heq, hinside, hearlier⟩ := h.held j hholder
    exact ⟨earlier, heq, (hsame j).trans hinside, fun k hk => (hsame k).trans (hearlier k hk)⟩
  · exact h.serial.update hsolo

/-- Taking the lock begins a transaction on the state so far. -/
theorem Served.lock (hd : Discipline code phase inv) {s : S} {c : Conc ι L S}
    {served : List ι} (h : Served code phase inv start s c served) {i : ι} {next : L}
    (hcode : code (c.locals i) = .lock next) (hfree : c.holder = none) :
    Served code phase inv start s
      { c with locals := Function.update c.locals i next, holder := some i }
      (served ++ [i]) := by
  obtain ⟨hinv, hbefore, hinside⟩ := hd.lock (h.inv i) hcode
  have hnot : i ∉ served := fun hi => h.not_before hi hbefore
  have hsolo : ∀ s, (solo code).Reaches (c.locals i, s) (next, s) := fun s =>
    Machine.Reaches.single (by simp [solo, soloStep, hcode])
  constructor
  · simp only [List.nodup_append, List.nodup_singleton, List.mem_singleton, true_and]
    refine ⟨h.nodup, ?_⟩
    rintro j hj k rfl rfl
    exact hnot hj
  · exact fun j => update_cases (fun _ => hinv) fun _ => h.inv j
  · intro j hj
    rw [List.mem_append, List.mem_singleton, not_or] at hj
    simp only [Function.update_of_ne hj.2]
    exact h.waiting j hj.1
  · exact fun hholder => by cases hholder
  · rintro j ⟨⟩
    refine ⟨served, rfl, by simpa using hinside, fun k hk => ?_⟩
    have hki : k ≠ i := fun heq => hnot (heq ▸ hk)
    simp only [Function.update_of_ne hki]
    exact h.free hfree k hk
  · rw [serialTo_append]
    refine ⟨c.shared, h.serial.update_of_notMem hnot, c.shared, ?_, rfl⟩
    simp only [Function.update_self]
    exact ((h.waiting i hnot).2 c.shared).trans (hsolo c.shared)

/-- Giving the lock back completes the transaction of the holder. -/
theorem Served.unlock (hd : Discipline code phase inv) {s : S} {c : Conc ι L S}
    {served : List ι} (h : Served code phase inv start s c served) {i : ι} {next : L}
    (hcode : code (c.locals i) = .unlock next) :
    Served code phase inv start s
      { c with locals := Function.update c.locals i next, holder := none } served := by
  obtain ⟨hinv, hinside, hafter⟩ := hd.unlock (h.inv i) hcode
  have hsolo : ∀ s, (solo code).Reaches (c.locals i, s) (next, s) := fun s =>
    Machine.Reaches.single (by simp [solo, soloStep, hcode])
  obtain ⟨earlier, heq, -, hearlier⟩ := h.held i (h.holder_of_inside hinside)
  constructor
  · exact h.nodup
  · exact fun j => update_cases (fun _ => hinv) fun _ => h.inv j
  · intro j hj
    have hji : j ≠ i := by
      rintro rfl
      exact hj (by simp [heq])
    simp only [Function.update_of_ne hji]
    exact h.waiting j hj
  · intro _ j hj
    refine update_cases (P := fun l => phase l = .after) (fun _ => hafter) fun hji => ?_
    rw [heq, List.mem_append, List.mem_singleton] at hj
    exact hearlier j (hj.resolve_right hji)
  · exact fun j hholder => by cases hholder
  · exact h.serial.update hsolo

/-- An access by the holder goes on with its transaction. -/
theorem Served.access (hd : Discipline code phase inv) {s : S} {c : Conc ι L S}
    {served : List ι} (h : Served code phase inv start s c served) {i : ι} {f : S → L × S}
    (hcode : code (c.locals i) = .access f) :
    Served code phase inv start s { c with
      locals := Function.update c.locals i (f c.shared).1
      shared := (f c.shared).2 } served := by
  obtain ⟨hinside, hnext⟩ := hd.access (h.inv i) hcode
  obtain ⟨hinv, hinside'⟩ := hnext c.shared
  have hholder := h.holder_of_inside hinside
  obtain ⟨earlier, heq, -, hearlier⟩ := h.held i hholder
  have hnot : i ∉ earlier := by
    have hnodup := h.nodup
    rw [heq, List.nodup_append] at hnodup
    exact fun hi => hnodup.2.2 i hi i List.mem_cons_self rfl
  constructor
  · exact h.nodup
  · exact fun j => update_cases (fun _ => hinv) fun _ => h.inv j
  · intro j hj
    have hji : j ≠ i := by
      rintro rfl
      exact hj (by simp [heq])
    simp only [Function.update_of_ne hji]
    exact h.waiting j hj
  · intro hnone
    rw [hholder] at hnone
    cases hnone
  · intro j hj
    rw [hholder] at hj
    cases hj
    refine ⟨earlier, heq, by simpa using hinside', fun k hk => ?_⟩
    have hki : k ≠ i := fun hkeq => hnot (hkeq ▸ hk)
    simp only [Function.update_of_ne hki]
    exact hearlier k hk
  · have hserial := h.serial
    rw [heq, serialTo_append] at hserial ⊢
    obtain ⟨mid, hbefore, last, hreach, hlast⟩ := hserial
    refine ⟨mid, hbefore.update_of_notMem hnot, (f c.shared).2, ?_, rfl⟩
    simp only [Function.update_self]
    have hshared : c.shared = last := hlast
    rw [← hshared] at hreach
    exact hreach.trans (Machine.Reaches.single (by simp [solo, soloStep, hcode]))

omit [DecidableEq ι] in
/-- At the start nobody has been served. -/
theorem Served.init (hstart : ∀ i, inv (start i) ∧ phase (start i) = .before) (s : S) :
    Served code phase inv start s (.start start s) [] := by
  refine ⟨List.nodup_nil, fun i => (hstart i).1, ?_, ?_, ?_, rfl⟩
  · exact fun i _ => ⟨(hstart i).2, fun s => Machine.Reaches.refl _⟩
  · exact fun _ i hi => by cases hi
  · exact fun i hi => by cases hi

/-- One step of any thread keeps the invariant. -/
theorem Served.step (hd : Discipline code phase inv) {s : S} {c c' : Conc ι L S}
    {served : List ι} (h : Served code phase inv start s c served) {i : ι}
    (hstep : Step code i c c') : ∃ served', Served code phase inv start s c' served' := by
  cases hstep with
  | silent hcode => exact ⟨served, h.silent hd hcode⟩
  | lock hcode hfree => exact ⟨served ++ [i], h.lock hd hcode hfree⟩
  | unlock hcode => exact ⟨served, h.unlock hd hcode⟩
  | access hcode => exact ⟨served, h.access hd hcode⟩

/-- Every interleaving keeps the invariant. -/
theorem reaches_served (hd : Discipline code phase inv)
    (hstart : ∀ i, inv (start i) ∧ phase (start i) = .before) {s : S} {c : Conc ι L S}
    (h : Interleaving code (.start start s) c) :
    ∃ served, Served code phase inv start s c served := by
  induction h with
  | refl => exact ⟨[], Served.init hstart s⟩
  | step _ hstep ih =>
      obtain ⟨served, hserved⟩ := ih
      exact hserved.step hd hstep

/-! ## What follows for interleavings -/

section Interleavings

variable (hd : Discipline code phase inv)
  (hstart : ∀ i, inv (start i) ∧ phase (start i) = .before) {s : S} {c : Conc ι L S}
  (h : Interleaving code (.start start s) c)

include hd hstart h

/-- A thread is inside its critical section exactly while it holds the lock. -/
theorem Discipline.holds_iff {i : ι} : c.holder = some i ↔ phase (c.locals i) = .inside := by
  obtain ⟨served, hserved⟩ := reaches_served hd hstart h
  constructor
  · intro hholder
    obtain ⟨-, -, hinside, -⟩ := hserved.held i hholder
    exact hinside
  · exact hserved.holder_of_inside

/-- The resource is accessed by the holder of the lock only. -/
theorem Discipline.access_holds {i : ι} {f : S → L × S}
    (hcode : code (c.locals i) = .access f) : c.holder = some i := by
  obtain ⟨served, hserved⟩ := reaches_served hd hstart h
  exact (hd.holds_iff hstart h).mpr (hd.access (hserved.inv i) hcode).1

/-- Some thread can move unless all have halted: no thread waits for a lock that
is never released. -/
theorem Discipline.progress :
    (∀ i, code (c.locals i) = .halt) ∨ ∃ i c', Step code i c c' := by
  obtain ⟨served, hserved⟩ := reaches_served hd hstart h
  cases hholder : c.holder with
  | some i =>
      obtain ⟨-, -, hinside, -⟩ := hserved.held i hholder
      cases hcode : code (c.locals i) with
      | silent next => exact Or.inr ⟨i, _, .silent hcode⟩
      | lock next =>
          have hbefore := (hd.lock (hserved.inv i) hcode).2.1
          rw [hinside] at hbefore
          cases hbefore
      | unlock next => exact Or.inr ⟨i, _, .unlock hcode⟩
      | access f => exact Or.inr ⟨i, _, .access hcode⟩
      | halt => exact absurd hinside (hd.halt (hserved.inv i) hcode)
  | none =>
      by_cases hall : ∀ i, code (c.locals i) = .halt
      · exact Or.inl hall
      · obtain ⟨i, hi⟩ := not_forall.mp hall
        cases hcode : code (c.locals i) with
        | silent next => exact Or.inr ⟨i, _, .silent hcode⟩
        | lock next => exact Or.inr ⟨i, _, .lock hcode hholder⟩
        | unlock next => exact Or.inr ⟨i, _, .unlock hcode⟩
        | access f => exact Or.inr ⟨i, _, .access hcode⟩
        | halt => exact absurd hcode hi

/-- A thread that has halted has released the lock. -/
theorem Discipline.halt_releases {i : ι} (hcode : code (c.locals i) = .halt) :
    c.holder ≠ some i := by
  obtain ⟨served, hserved⟩ := reaches_served hd hstart h
  exact fun hholder =>
    hd.halt (hserved.inv i) hcode ((hd.holds_iff hstart h).mp hholder)

/-- When all threads have halted, their local states and the resource are those
of a serial run of all of them in some order. -/
theorem Discipline.serializable (all : List ι) (hall : ∀ i, i ∈ all)
    (hhalt : ∀ i, code (c.locals i) = .halt) :
    c.holder = none ∧ ∃ order : List ι, order.Nodup ∧ (∀ i, i ∈ order) ∧
      SerialTo code start c.locals order s c.shared := by
  obtain ⟨served, hserved⟩ := reaches_served hd hstart h
  constructor
  · cases hholder : c.holder with
    | none => rfl
    | some i => exact absurd hholder (hd.halt_releases hstart h (hhalt i))
  · -- threads that never took the lock may come in any order after the others
    let rest := (all.filter (· ∉ served)).dedup
    have hrest : ∀ i ∈ rest, i ∉ served := by
      intro i hi
      simpa using (List.mem_filter.mp (List.mem_dedup.mp hi)).2
    have hserial : ∀ is : List ι, (∀ i ∈ is, i ∉ served) →
        SerialTo code start c.locals is c.shared c.shared := by
      intro is
      induction is with
      | nil => exact fun _ => rfl
      | cons i is ih =>
          intro his
          exact ⟨c.shared, (hserved.waiting i (his i List.mem_cons_self)).2 c.shared,
            ih fun j hj => his j (List.mem_cons_of_mem _ hj)⟩
    refine ⟨served ++ rest, ?_, ?_, ?_⟩
    · rw [List.nodup_append]
      refine ⟨hserved.nodup, List.nodup_dedup _, ?_⟩
      rintro i hi j hj rfl
      exact hrest i hj hi
    · intro i
      by_cases hi : i ∈ served
      · exact List.mem_append_left _ hi
      · refine List.mem_append_right _ (List.mem_dedup.mpr (List.mem_filter.mpr ⟨hall i, ?_⟩))
        simpa using hi
    · exact serialTo_append.mpr ⟨c.shared, hserved.serial, hserial rest hrest⟩

end Interleavings

/-! ## The order of the lock -/

/-- The thread if its next step takes the lock. -/
def Conc.locks (code : L → Act L S) (i : ι) (c : Conc ι L S) : List ι :=
  match code (c.locals i) with
  | .lock _ => [i]
  | _ => []

/-- The threads that take the lock along a schedule, in this order. -/
def Conc.lockOrder (code : L → Act L S) : List ι → Conc ι L S → List ι
  | [], _ => []
  | i :: rest, c =>
      match c.move code i with
      | none => []
      | some c' => c.locks code i ++ c'.lockOrder code rest

/-- A schedule is followed move by move. -/
theorem Conc.follow_cons {i : ι} {rest : List ι} {c c' : Conc ι L S}
    (h : c.follow code (i :: rest) = some c') :
    ∃ d, c.move code i = some d ∧ d.follow code rest = some c' := by
  simpa only [Conc.follow, List.foldlM_cons, Option.bind_eq_bind, Option.bind_eq_some_iff] using h

/-- The order along a schedule is that along its first part and that along the
rest. -/
theorem Conc.lockOrder_append {front back : List ι} {c d : Conc ι L S}
    (h : c.follow code front = some d) :
    c.lockOrder code (front ++ back) = c.lockOrder code front ++ d.lockOrder code back := by
  induction front generalizing c with
  | nil =>
      cases h
      rfl
  | cons i front ih =>
      obtain ⟨c', hmove, hrest⟩ := Conc.follow_cons h
      rw [List.cons_append, Conc.lockOrder, Conc.lockOrder, hmove]
      simp only [ih hrest, List.append_assoc]

/-- A step adds to the threads that were served the one that takes the lock. -/
theorem Served.move (hd : Discipline code phase inv) {s : S} {c c' : Conc ι L S}
    {served : List ι} (h : Served code phase inv start s c served) {i : ι}
    (hmove : c.move code i = some c') :
    Served code phase inv start s c' (served ++ c.locks code i) := by
  cases hcode : code (c.locals i) with
  | silent next =>
      simp only [Conc.move, hcode, Option.some.injEq] at hmove
      simp only [Conc.locks, hcode, List.append_nil]
      exact hmove ▸ h.silent hd hcode
  | lock next =>
      simp only [Conc.move, hcode, Option.ite_none_right_eq_some, Option.some.injEq] at hmove
      simp only [Conc.locks, hcode]
      exact hmove.2 ▸ h.lock hd hcode hmove.1
  | unlock next =>
      simp only [Conc.move, hcode, Option.some.injEq] at hmove
      simp only [Conc.locks, hcode, List.append_nil]
      exact hmove ▸ h.unlock hd hcode
  | access f =>
      simp only [Conc.move, hcode, Option.some.injEq] at hmove
      simp only [Conc.locks, hcode, List.append_nil]
      exact hmove ▸ h.access hd hcode
  | halt =>
      simp only [Conc.move, hcode] at hmove
      cases hmove

/-- And so does a schedule. -/
theorem Served.follow (hd : Discipline code phase inv) {s : S} {schedule : List ι}
    {c c' : Conc ι L S} {served : List ι} (h : Served code phase inv start s c served)
    (hfollow : c.follow code schedule = some c') :
    Served code phase inv start s c' (served ++ c.lockOrder code schedule) := by
  induction schedule generalizing c served with
  | nil =>
      cases hfollow
      rw [Conc.lockOrder, List.append_nil]
      exact h
  | cons i rest ih =>
      obtain ⟨d, hmove, hrest⟩ := Conc.follow_cons hfollow
      have hall := ih (h.move hd hmove) hrest
      rw [List.append_assoc] at hall
      rw [Conc.lockOrder, hmove]
      exact hall

/-- The threads that a schedule has served from the start are those of its
order. -/
theorem follow_served (hd : Discipline code phase inv)
    (hstart : ∀ i, inv (start i) ∧ phase (start i) = .before) {s : S} {schedule : List ι}
    {c : Conc ι L S} (h : Conc.follow code schedule (.start start s) = some c) :
    Served code phase inv start s c (Conc.lockOrder code schedule (.start start s)) := by
  exact (Served.init hstart s).follow hd h

/-- The order of the lock is one of real time: a thread that is past its critical
section comes before those that have not yet come to theirs. -/
theorem lockOrder_realTime (hd : Discipline code phase inv)
    (hstart : ∀ i, inv (start i) ∧ phase (start i) = .before) {s : S} {front back : List ι}
    {d : Conc ι L S} (hfront : Conc.follow code front (.start start s) = some d) {i j : ι}
    (hi : phase (d.locals i) = .after) (hj : phase (d.locals j) = .before)
    (hmem : j ∈ Conc.lockOrder code (front ++ back) (.start start s)) :
    [i, j].Sublist (Conc.lockOrder code (front ++ back) (.start start s)) := by
  have hserved := follow_served hd hstart hfront
  rw [Conc.lockOrder_append hfront] at hmem ⊢
  have hin : i ∈ Conc.lockOrder code front (.start start s) := by
    by_contra hnot
    have hbefore := (hserved.waiting i hnot).1
    rw [hi] at hbefore
    cases hbefore
  have hout : j ∉ Conc.lockOrder code front (.start start s) := fun hj' =>
    hserved.not_before hj' hj
  have hback := (List.mem_append.mp hmem).resolve_left hout
  exact (List.singleton_sublist.mpr hin).append (List.singleton_sublist.mpr hback)

end MdioTools.Library
