import MdioTools.Library.Machine
import MdioTools.Library.SortPass
import MdioTools.Library.TailQueue

/-!
# The order of the devices

The devices of the environment are on a tail queue, in the order in which they
were discovered.  Once their DSA indices are known, one pass of a sort that
moves devices back goes over the queue.

Main results:

- Definition {lit}`envInitDevSort`: the two loops of {lit}`env_init_dev_sort`,
  on the pointers of the queue.
- Theorem {lit}`envInitDevSort_halts`: they end, with the list of
  {lit}`sortPass`.
- Theorem {lit}`envInitDevSort_conserves`: no device is lost or duplicated, and
  every device that is looked at is on the list.
- Theorem {lit}`envInitDevSort_sorted_iff`: the lists that end up sorted.
-/

namespace MdioTools.Mvls

open Library

variable {δ : Type} [DecidableEq δ]

/-! ## The loops -/

/-- `env_dev_add`, as far as the queue is concerned. -/
def envDevAdd (devs : TailQueue δ) (dev : δ) : TailQueue δ :=
  devs.insertTail dev

/-- The places in `env_init_dev_sort`: the test of the outer loop, the test of
the inner loop, and the move behind it. -/
inductive DevSortState (δ : Type)
  | outer (devs : TailQueue δ) (dev : Option δ)
  | inner (devs : TailQueue δ) (dev next : δ) (insert : Option δ)
  | move (devs : TailQueue δ) (dev next : δ) (insert : Option δ)

/-- One step of `env_init_dev_sort`, for the DSA indices of the devices. -/
def envInitDevSortStep (index : δ → Int) : DevSortState δ → DevSortState δ ⊕ TailQueue δ
  | .outer devs none => .inr devs
  | .outer devs (some dev) =>
      match devs.next dev with
      | none => .inr devs
      | some next =>
          if index next > index dev then .inl (.outer devs (some next))
          else .inl (.inner devs dev next (some next))
  | .inner devs dev next none => .inl (.move devs dev next none)
  | .inner devs dev next (some insert) =>
      if index insert < index dev then .inl (.inner devs dev next (devs.next insert))
      else .inl (.move devs dev next (some insert))
  | .move devs dev next none => .inl (.outer ((devs.remove dev).insertTail dev) (some next))
  | .move devs dev next (some insert) =>
      .inl (.outer ((devs.remove dev).insertBefore insert dev) (some next))

/-- `env_init_dev_sort`. -/
def envInitDevSort (index : δ → Int) : Machine (DevSortState δ) (TailQueue δ) where
  step := envInitDevSortStep index

/-- The start of `env_init_dev_sort`. -/
def DevSortState.entry (devs : TailQueue δ) : DevSortState δ :=
  .outer devs devs.first

/-- The queue of a state. -/
def DevSortState.devs : DevSortState δ → TailQueue δ
  | .outer devs _ | .inner devs _ _ _ | .move devs _ _ _ => devs

/-- The devices whose index or pointers the next step reads, that it removes, or
that it inserts another in front of. -/
def DevSortState.touches : DevSortState δ → List δ
  | .outer _ none => []
  | .outer devs (some dev) => dev :: (devs.next dev).toList
  | .inner _ dev _ insert | .move _ dev _ insert => dev :: insert.toList

/-! ## The result -/

section Run

variable (index : δ → Int) {devs : TailQueue δ} {p : List δ}

omit [DecidableEq δ] in
theorem splitBehind (p a b : List δ) (d c : δ) :
    p ++ d :: (a ++ c :: b) = (p ++ d :: a) ++ c :: b := by
  simp

/-- The inner loop goes on to the first device whose index is not smaller. -/
theorem inner_reaches {dev : δ} (next : δ) {a b : List δ}
    (h : devs.Represents (p ++ dev :: (a ++ b))) :
    (envInitDevSort index).Reaches (.inner devs dev next b.head?)
      (.move devs dev next (b.dropWhile fun c => index c < index dev).head?) := by
  induction b generalizing a with
  | nil => exact Machine.Reaches.single rfl
  | cons c b ih =>
      by_cases hlt : index c < index dev
      · have hnext : devs.next c = b.head? := by
          rw [splitBehind] at h
          exact h.next_eq
        have hstep : (envInitDevSort index).step (.inner devs dev next (some c)) =
            .inl (.inner devs dev next b.head?) := by
          simp only [envInitDevSort, envInitDevSortStep, if_pos hlt, hnext]
        have hrest := ih (a := a ++ [c]) (by simpa using h)
        rw [List.dropWhile_cons_of_pos (by simpa using hlt)]
        exact (Machine.Reaches.single hstep).trans hrest
      · rw [List.dropWhile_cons_of_neg (by simpa using hlt)]
        refine Machine.Reaches.single ?_
        simp only [envInitDevSort, envInitDevSortStep, List.head?_cons, if_neg hlt]

/-- A move takes the device to its place among those behind it. -/
theorem move_represents {dev : δ} (next : δ) {a b : List δ}
    (h : devs.Represents (p ++ dev :: (a ++ b))) :
    ∃ devs', (envInitDevSort index).step (.move devs dev next b.head?) =
        .inl (.outer devs' (some next)) ∧ devs'.Represents (p ++ a ++ dev :: b) := by
  have hgone := h.remove
  have hfree : dev ∉ p ++ (a ++ b) :=
    (List.nodup_cons.mp (List.nodup_middle.mp h.nodup)).1
  rw [← List.append_assoc] at hgone hfree
  cases b with
  | nil =>
      refine ⟨_, rfl, ?_⟩
      simpa using hgone.insertTail hfree
  | cons c b => exact ⟨_, rfl, hgone.insertBefore hfree⟩

/-- A device whose successor has no greater index is moved back, and the outer
loop goes on with the successor. -/
theorem outer_reaches {a b : δ} {l : List δ} (h : devs.Represents (p ++ a :: b :: l))
    (hle : ¬index b > index a) :
    ∃ devs', (envInitDevSort index).Reaches (.outer devs (some a)) (.outer devs' (some b)) ∧
      devs'.Represents (p ++ moveBack index a (b :: l)) := by
  have hstep : (envInitDevSort index).step (.outer devs (some a)) =
      .inl (.inner devs a b (some b)) := by
    simp only [envInitDevSort, envInitDevSortStep, h.next_eq, List.head?_cons, if_neg hle]
  have hinner := inner_reaches index b (a := []) (b := b :: l) h
  have hsplit : devs.Represents (p ++ a :: ((b :: l).takeWhile (fun c => index c < index a) ++
      (b :: l).dropWhile fun c => index c < index a)) := by
    rwa [List.takeWhile_append_dropWhile]
  obtain ⟨devs', hmove, hdevs'⟩ := move_represents index b hsplit
  refine ⟨devs', ((Machine.Reaches.single hstep).trans hinner).trans
    (Machine.Reaches.single hmove), ?_⟩
  rwa [moveBack_eq, ← List.append_assoc]

/-- The loops end, and the list of the queue is that of the pass. -/
theorem outer_halts {l : List δ} (h : devs.Represents (p ++ l)) :
    ∃ devs', (envInitDevSort index).Halts (.outer devs l.head?) devs' ∧
      devs'.Represents (p ++ sortPass index l) := by
  induction l using sortPass.induct index generalizing p devs with
  | case1 =>
      rw [sortPass]
      exact ⟨devs, Machine.Halts.single rfl, h⟩
  | case2 a =>
      rw [sortPass]
      refine ⟨devs, Machine.Halts.single ?_, h⟩
      simp only [envInitDevSort, envInitDevSortStep, List.head?_cons, h.next_eq, List.head?_nil]
  | case3 a b l hlt ih =>
      rw [sortPass, if_pos hlt]
      obtain ⟨devs₁, hreach, hdevs₁⟩ := outer_reaches index h (not_lt.mpr hlt.le)
      rw [moveBack_cons_of_lt index hlt] at hdevs₁
      obtain ⟨devs', hhalts, hdevs'⟩ := ih hdevs₁
      exact ⟨devs', hreach.halts hhalts, hdevs'⟩
  | case4 a b l hle ih =>
      rw [sortPass, if_neg hle]
      have hstays : ∃ devs₁, (envInitDevSort index).Reaches (.outer devs (some a))
          (.outer devs₁ (some b)) ∧ devs₁.Represents (p ++ a :: b :: l) := by
        by_cases hgt : index b > index a
        · refine ⟨devs, Machine.Reaches.single ?_, h⟩
          simp only [envInitDevSort, envInitDevSortStep, h.next_eq, List.head?_cons, if_pos hgt]
        · -- the indices are the same, and the device is put back to its place
          obtain ⟨devs₁, hreach, hdevs₁⟩ := outer_reaches index h hgt
          rw [moveBack_cons_of_le index (not_lt.mp hle)] at hdevs₁
          exact ⟨devs₁, hreach, hdevs₁⟩
      obtain ⟨devs₁, hreach, hdevs₁⟩ := hstays
      rw [List.append_cons] at hdevs₁
      obtain ⟨devs', hhalts, hdevs'⟩ := ih hdevs₁
      rw [List.append_assoc] at hdevs'
      exact ⟨devs', hreach.halts hhalts, hdevs'⟩

/-- `env_init_dev_sort` makes one pass of the sort. -/
theorem envInitDevSort_halts {l : List δ} (h : devs.Represents l) :
    ∃ devs', (envInitDevSort index).Halts (.entry devs) devs' ∧
      devs'.Represents (sortPass index l) := by
  have hentry : DevSortState.entry devs = .outer devs l.head? := by
    rw [DevSortState.entry, h.first_eq]
  rw [hentry]
  exact outer_halts index (p := []) h

/-! ## The steps -/

/-- Where the loops are in a list `l` of devices. -/
def DevSortState.At (l : List δ) : DevSortState δ → Prop
  | .outer _ dev => ∃ p r, l = p ++ r ∧ r.head? = dev
  | .inner _ dev next insert | .move _ dev next insert =>
      ∃ p a b, l = p ++ dev :: (a ++ b) ∧ (a ++ b).head? = some next ∧ b.head? = insert

/-- The queue is a list with the devices of `l`, in which the loops are. -/
def DevSortState.Sound (l : List δ) (s : DevSortState δ) : Prop :=
  ∃ l', s.devs.Represents l' ∧ l'.Perm l ∧ s.At l'

omit [DecidableEq δ] in
/-- A device of a list is the first of the rest from it on. -/
theorem exists_split_of_mem {l : List δ} {x : δ} (h : x ∈ l) :
    ∃ p r, l = p ++ r ∧ r.head? = some x := by
  obtain ⟨p, r, rfl⟩ := List.append_of_mem h
  exact ⟨p, x :: r, rfl, rfl⟩

/-- A step keeps the devices of the list. -/
theorem envInitDevSortStep_sound {l : List δ} {s s' : DevSortState δ} (hs : s.Sound l)
    (hstep : envInitDevSortStep index s = .inl s') : s'.Sound l := by
  obtain ⟨l', hdevs, hperm, hat⟩ := hs
  cases s with
  | outer devs dev =>
      obtain ⟨p, r, rfl, rfl⟩ := hat
      change devs.Represents _ at hdevs
      match r with
      | [] => cases hstep
      | [a] =>
          simp only [envInitDevSortStep, List.head?_cons, hdevs.next_eq, List.head?_nil] at hstep
          cases hstep
      | a :: b :: r =>
          simp only [envInitDevSortStep, List.head?_cons, hdevs.next_eq] at hstep
          split at hstep
          · cases hstep
            exact ⟨_, hdevs, hperm, p ++ [a], b :: r, by simp, rfl⟩
          · cases hstep
            exact ⟨_, hdevs, hperm, p, [], b :: r, rfl, rfl, rfl⟩
  | inner devs dev next insert =>
      obtain ⟨p, a, b, rfl, hnext, rfl⟩ := hat
      cases b with
      | nil =>
          cases hstep
          exact ⟨_, hdevs, hperm, p, a, [], rfl, hnext, rfl⟩
      | cons c b =>
          simp only [envInitDevSortStep, List.head?_cons] at hstep
          split at hstep
          · cases hstep
            refine ⟨_, hdevs, hperm, p, a ++ [c], b, by simp, by simpa using hnext, ?_⟩
            change devs.Represents _ at hdevs
            rw [splitBehind] at hdevs
            exact hdevs.next_eq.symm
          · cases hstep
            exact ⟨_, hdevs, hperm, p, a, c :: b, rfl, hnext, rfl⟩
  | move devs dev next insert =>
      obtain ⟨p, a, b, rfl, hnext, rfl⟩ := hat
      obtain ⟨devs', hmove, hdevs'⟩ := move_represents index next hdevs
      rw [show envInitDevSortStep index (.move devs dev next b.head?) = _ from hmove] at hstep
      cases hstep
      have hsame : (p ++ a ++ dev :: b).Perm (p ++ dev :: (a ++ b)) := by
        rw [List.append_assoc]
        exact List.perm_middle.append_left p
      have hmem : next ∈ p ++ a ++ dev :: b :=
        hsame.mem_iff.mpr (List.mem_append_right _
          (List.mem_cons_of_mem _ (List.mem_of_head? hnext)))
      exact ⟨_, hdevs', hsame.trans hperm, exists_split_of_mem hmem⟩

omit [DecidableEq δ] in
/-- What a state looks at is on the list of its queue. -/
theorem DevSortState.At.touches_mem {l : List δ} {s : DevSortState δ} (hat : s.At l)
    (hdevs : s.devs.Represents l) {x : δ} (hx : x ∈ s.touches) : x ∈ l := by
  cases s with
  | outer devs dev =>
      obtain ⟨p, r, rfl, rfl⟩ := hat
      cases r with
      | nil => cases hx
      | cons a r =>
          have hnext : devs.next a = r.head? := hdevs.next_eq
          simp only [DevSortState.touches, List.head?_cons, hnext, List.mem_cons,
            Option.mem_toList] at hx
          refine List.mem_append_right _ ?_
          rcases hx with rfl | hx
          · exact List.mem_cons_self
          · exact List.mem_cons_of_mem _ (List.mem_of_head? hx)
  | inner devs dev next insert | move devs dev next insert =>
      obtain ⟨p, a, b, rfl, -, rfl⟩ := hat
      simp only [DevSortState.touches, List.mem_cons, Option.mem_toList] at hx
      refine List.mem_append_right _ ?_
      rcases hx with rfl | hx
      · exact List.mem_cons_self
      · exact List.mem_cons_of_mem _ (List.mem_append_right _ (List.mem_of_head? hx))

end Run

/-! ## Main results -/

/-- For every list of devices and any indices, `env_init_dev_sort` ends with a
list of the same devices.  On the way the queue is always such a list, and every
device that is followed, compared, removed or inserted in front of is on it. -/
theorem envInitDevSort_conserves (index : δ → Int) {devs : TailQueue δ} {l : List δ}
    (h : devs.Represents l) :
    (∃ devs' l', (envInitDevSort index).Halts (.entry devs) devs' ∧ devs'.Represents l' ∧
      l'.Perm l) ∧
    ∀ s, (envInitDevSort index).Reaches (.entry devs) s →
      ∃ l', s.devs.Represents l' ∧ l'.Perm l ∧ ∀ x ∈ s.touches, x ∈ l' := by
  constructor
  · obtain ⟨devs', hhalts, hdevs'⟩ := envInitDevSort_halts index h
    exact ⟨devs', _, hhalts, hdevs', sortPass_perm index l⟩
  · intro s hs
    have hentry : (DevSortState.entry devs).Sound l :=
      ⟨l, h, List.Perm.refl l, [], l, rfl, h.first_eq.symm⟩
    obtain ⟨l', hdevs, hperm, hat⟩ := Machine.Reaches.invariant (I := DevSortState.Sound l)
      (fun _ _ hs hstep => envInitDevSortStep_sound index hs hstep) hentry hs
    exact ⟨l', hdevs, hperm, fun x hx => hat.touches_mem hdevs hx⟩

/-- A queue made of devices that are added one after the other. -/
theorem envDevAdd_represents {l : List δ} (hnodup : l.Nodup) :
    (l.foldl envDevAdd TailQueue.init).Represents l := by
  suffices hall : ∀ (p : List δ) (devs : TailQueue δ), devs.Represents p → (p ++ l).Nodup →
      (l.foldl envDevAdd devs).Represents (p ++ l) from
    hall [] TailQueue.init TailQueue.Represents.init hnodup
  clear hnodup
  induction l with
  | nil => exact fun p devs hdevs _ => by simpa using hdevs
  | cons x l ih =>
      intro p devs hdevs hnodup
      have hx : x ∉ p := fun hp =>
        (List.nodup_append.mp hnodup).2.2 x hp x List.mem_cons_self rfl
      rw [List.append_cons] at hnodup ⊢
      exact ih (p ++ [x]) _ (hdevs.insertTail hx) hnodup

/-- The hypothesis is met by three devices with the indices 2, 3 and 1. -/
theorem envInitDevSort_conserves_three : ∃ (devs' : TailQueue Int) (l' : List Int),
    (envInitDevSort id).Halts (.entry ([2, 3, 1].foldl envDevAdd TailQueue.init)) devs' ∧
      devs'.Represents l' ∧ l'.Perm [2, 3, 1] :=
  (envInitDevSort_conserves id (envDevAdd_represents (by decide))).1

/-- The list ends up sorted exactly when no device is followed by one whose
index is not smaller and, behind that, by one whose index is smaller. -/
theorem envInitDevSort_sorted_iff (index : δ → Int) {devs : TailQueue δ} {l : List δ}
    (h : devs.Represents l) :
    (∃ devs' l', (envInitDevSort index).Halts (.entry devs) devs' ∧ devs'.Represents l' ∧
      SortedBy index l') ↔ OnePass index l := by
  obtain ⟨devs₁, hhalts₁, hdevs₁⟩ := envInitDevSort_halts index h
  rw [← sortPass_sorted_iff]
  constructor
  · rintro ⟨devs', l', hhalts, hdevs', hsorted⟩
    obtain rfl := hhalts.unique hhalts₁
    rwa [hdevs'.unique hdevs₁] at hsorted
  · exact fun hsorted => ⟨devs₁, _, hhalts₁, hdevs₁, hsorted⟩

/-- The hypothesis is met by three devices with the indices 3, 2 and 1, which
end up sorted. -/
theorem envInitDevSort_sorted_iff_three : ∃ (devs' : TailQueue Int) (l' : List Int),
    (envInitDevSort id).Halts (.entry ([3, 2, 1].foldl envDevAdd TailQueue.init)) devs' ∧
      devs'.Represents l' ∧ SortedBy id l' := by
  refine (envInitDevSort_sorted_iff id (envDevAdd_represents (by decide))).mpr ?_
  intro a b c hsub hle
  have hdown : [3, 2, 1].Pairwise fun a b : Int => b < a := by decide
  have hpairs := hdown.sublist hsub
  exact absurd hle (not_le.mpr ((List.pairwise_cons.mp hpairs).1 b List.mem_cons_self))

/-- Three devices with the indices 2, 3 and 1 do not end up sorted. -/
theorem envInitDevSort_unsorted : ¬∃ (devs' : TailQueue Int) (l' : List Int),
    (envInitDevSort id).Halts (.entry ([2, 3, 1].foldl envDevAdd TailQueue.init)) devs' ∧
      devs'.Represents l' ∧ SortedBy id l' := by
  rintro ⟨devs', l', hhalts, hdevs', hsorted⟩
  obtain ⟨devs₁, hhalts₁, hdevs₁⟩ := envInitDevSort_halts (id : Int → Int)
    (envDevAdd_represents (l := [2, 3, 1]) (by decide))
  obtain rfl := hhalts.unique hhalts₁
  rw [hdevs'.unique hdevs₁] at hsorted
  have hone := (sortPass_sorted_iff id [2, 3, 1]).mp hsorted
  exact absurd (hone 2 3 1 (List.Sublist.refl _) (by decide)) (by decide)

end MdioTools.Mvls
