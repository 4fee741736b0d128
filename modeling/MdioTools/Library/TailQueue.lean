import Mathlib.Logic.Function.Basic
import Mathlib.Data.List.Nodup
import Mathlib.Tactic.Common

/-!
# Tail queues

A tail queue is a list of linked elements.  Every element has a pointer to the
next one and the address of the pointer that points to it, and the head has a
pointer to the first element and the address of the last pointer of the list,
which is null.  The operations assign to these pointers one after another, as
the macros do that are in common use for such queues.

Main results:

- Definition {lit}`TailQueue.Represents`: the pointers make up a list of
  elements.
- Theorem {lit}`TailQueue.Represents.next_eq`: the pointer to the next element.
- Theorems {lit}`TailQueue.Represents.remove`,
  {lit}`TailQueue.Represents.insertBefore` and
  {lit}`TailQueue.Represents.insertTail`: what the operations do to the list.
-/

namespace MdioTools.Library

/-- The address of a pointer to an element: that of the head, or that of an
element. -/
inductive Slot (α : Type*)
  | first
  | next (x : α)
deriving DecidableEq

/-- The pointers of a queue and its elements. -/
structure TailQueue (α : Type*) where
  first : Option α
  last : Slot α
  next : α → Option α
  prev : α → Slot α

namespace TailQueue

variable {α : Type*} [DecidableEq α]

/-- The pointer at an address. -/
def load (q : TailQueue α) : Slot α → Option α
  | .first => q.first
  | .next x => q.next x

/-- Assign to the pointer at an address. -/
def store (q : TailQueue α) (s : Slot α) (p : Option α) : TailQueue α :=
  match s with
  | .first => { q with first := p }
  | .next x => { q with next := Function.update q.next x p }

/-- Assign to the back pointer of an element. -/
def setPrev (q : TailQueue α) (x : α) (s : Slot α) : TailQueue α :=
  { q with prev := Function.update q.prev x s }

/-! ## Operations -/

/-- The empty queue. -/
def init : TailQueue α where
  first := none
  last := .first
  next _ := none
  prev _ := .first

/-- Insert an element at the end. -/
def insertTail (q : TailQueue α) (elm : α) : TailQueue α :=
  let q := q.store (.next elm) none
  let q := q.setPrev elm q.last
  let q := q.store q.last (some elm)
  { q with last := .next elm }

/-- Insert an element in front of another. -/
def insertBefore (q : TailQueue α) (listelm elm : α) : TailQueue α :=
  let q := q.setPrev elm (q.prev listelm)
  let q := q.store (.next elm) (some listelm)
  let q := q.store (q.prev listelm) (some elm)
  q.setPrev listelm (.next elm)

/-- Remove an element. -/
def remove (q : TailQueue α) (elm : α) : TailQueue α :=
  let q := match q.next elm with
    | some n => q.setPrev n (q.prev elm)
    | none => { q with last := q.prev elm }
  q.store (q.prev elm) (q.next elm)

/-- The elements from one on, as a loop visits them that follows the pointers. -/
def foreach (q : TailQueue α) : Nat → Option α → Option (List α)
  | _, none => some []
  | 0, some _ => none
  | n + 1, some x => (q.foreach n (q.next x)).map (x :: ·)

/-! ## Pointers behind assignments -/

section Assign

variable (q : TailQueue α)

/-- A pointer that is stored is loaded, and the others stay. -/
theorem load_store (s t : Slot α) (p : Option α) :
    (q.store s p).load t = if t = s then p else q.load t := by
  cases s <;> cases t <;> simp [store, load, Function.update_apply]

/-- Setting the pointer back does not touch those forward. -/
@[simp]
theorem load_setPrev (x : α) (s t : Slot α) : (q.setPrev x s).load t = q.load t := by
  cases t <;> rfl

@[simp]
theorem store_last (s : Slot α) (p : Option α) : (q.store s p).last = q.last := by
  cases s <;> rfl

@[simp]
theorem store_prev (s : Slot α) (p : Option α) : (q.store s p).prev = q.prev := by
  cases s <;> rfl

@[simp]
theorem setPrev_last (x : α) (s : Slot α) : (q.setPrev x s).last = q.last :=
  rfl

theorem setPrev_prev (x y : α) (s : Slot α) :
    (q.setPrev x s).prev y = if y = x then s else q.prev y := by
  simp [setPrev, Function.update_apply]

end Assign

/-! ## Linked elements -/

/-- The address behind some elements that start at an address. -/
def behind (s : Slot α) : List α → Slot α
  | [] => s
  | x :: l => behind (.next x) l

/-- The addresses at which elements that start at an address are linked. -/
def slots (s : Slot α) : List α → List (Slot α)
  | [] => []
  | x :: l => s :: slots (.next x) l

/-- The elements are linked, from an address on. -/
def Linked (q : TailQueue α) (s : Slot α) : List α → Prop
  | [] => True
  | x :: l => q.load s = some x ∧ q.prev x = s ∧ q.Linked (.next x) l

omit [DecidableEq α] in
/-- Where a list ends that is put behind another. -/
theorem behind_append (s : Slot α) (a b : List α) :
    behind s (a ++ b) = behind (behind s a) b := by
  induction a generalizing s with
  | nil => rfl
  | cons x a ih => exact ih (.next x)

omit [DecidableEq α] in
/-- Two lists in a row are linked if each is. -/
theorem linked_append {q : TailQueue α} (s : Slot α) (a b : List α) :
    q.Linked s (a ++ b) ↔ q.Linked s a ∧ q.Linked (behind s a) b := by
  induction a generalizing s with
  | nil => simp [Linked, behind]
  | cons x a ih => simp only [List.cons_append, Linked, behind, ih, and_assoc]

omit [DecidableEq α] in
/-- The address behind is the first, or that of one of the elements. -/
theorem behind_mem (s : Slot α) (l : List α) : behind s l = s ∨ ∃ x ∈ l, behind s l = .next x := by
  induction l generalizing s with
  | nil => exact Or.inl rfl
  | cons x l ih =>
      rcases ih (.next x) with h | ⟨y, hy, h⟩
      · exact Or.inr ⟨x, List.mem_cons_self, h⟩
      · exact Or.inr ⟨y, List.mem_cons_of_mem _ hy, h⟩

omit [DecidableEq α] in
/-- The slots of a list are the first and those of its elements. -/
theorem mem_slots {s t : Slot α} {l : List α} (h : t ∈ slots s l) :
    t = s ∨ ∃ x ∈ l, t = .next x := by
  induction l generalizing s with
  | nil => cases h
  | cons x l ih =>
      rcases List.mem_cons.mp h with rfl | h
      · exact Or.inl rfl
      · rcases ih h with rfl | ⟨y, hy, rfl⟩
        · exact Or.inr ⟨x, List.mem_cons_self, rfl⟩
        · exact Or.inr ⟨y, List.mem_cons_of_mem _ hy, rfl⟩

omit [DecidableEq α] in
/-- Elements that differ are not linked at the address behind them. -/
theorem behind_not_mem_slots {s : Slot α} {l : List α} (hnodup : l.Nodup)
    (hs : ∀ x ∈ l, s ≠ .next x) : behind s l ∉ slots s l := by
  induction l generalizing s with
  | nil => simp [slots]
  | cons x l ih =>
      obtain ⟨hx, hnodup⟩ := List.nodup_cons.mp hnodup
      have hx' : ∀ y ∈ l, Slot.next x ≠ .next y := fun y hy h => hx (Slot.next.inj h ▸ hy)
      intro hmem
      rcases List.mem_cons.mp hmem with h | h
      · rcases behind_mem (.next x) l with hb | ⟨y, hy, hb⟩
        · exact hs x List.mem_cons_self (h.symm.trans hb)
        · exact hs y (List.mem_cons_of_mem _ hy) (h.symm.trans hb)
      · exact ih hnodup hx' h

omit [DecidableEq α] in
/-- Linked elements stay linked when their pointers are not assigned to. -/
theorem Linked.congr {q q' : TailQueue α} {s : Slot α} {l : List α} (h : q.Linked s l)
    (hload : ∀ t ∈ slots s l, q'.load t = q.load t) (hprev : ∀ x ∈ l, q'.prev x = q.prev x) :
    q'.Linked s l := by
  induction l generalizing s with
  | nil => trivial
  | cons x l ih =>
      obtain ⟨hx, hs, hrest⟩ := h
      refine ⟨?_, ?_, ?_⟩
      · rw [hload s List.mem_cons_self, hx]
      · rw [hprev x List.mem_cons_self, hs]
      · exact ih hrest (fun t ht => hload t (List.mem_cons_of_mem _ ht))
          fun y hy => hprev y (List.mem_cons_of_mem _ hy)

/-! ## The list of a queue -/

/-- The queue is the list of elements. -/
structure Represents (q : TailQueue α) (l : List α) : Prop where
  nodup : l.Nodup
  linked : q.Linked .first l
  last : q.last = behind .first l
  null : q.load (behind .first l) = none

namespace Represents

variable {q : TailQueue α} {a b : List α} {x y : α}

omit [DecidableEq α]

/-- A new queue has the empty list. -/
theorem init : (TailQueue.init : TailQueue α).Represents [] :=
  ⟨List.nodup_nil, trivial, rfl, rfl⟩

/-- The head points to the first element. -/
theorem first_eq {l : List α} (h : q.Represents l) : q.first = l.head? := by
  cases l with
  | nil => exact h.null
  | cons x l => exact h.linked.1

/-- An element points to the next one. -/
theorem next_eq (h : q.Represents (a ++ x :: b)) : q.next x = b.head? := by
  obtain ⟨-, -, -, hrest⟩ := (linked_append .first a (x :: b)).mp h.linked
  cases b with
  | nil =>
      have hnull := h.null
      rwa [behind_append] at hnull
  | cons y b => exact hrest.1

/-- A loop over the queue visits its elements in order. -/
theorem foreach_eq {n : Nat} (h : q.Represents (a ++ b)) (hn : b.length ≤ n) :
    q.foreach n b.head? = some b := by
  induction b generalizing a n with
  | nil => cases n <;> rfl
  | cons x b ih =>
      obtain ⟨m, rfl⟩ : ∃ m, n = m + 1 := ⟨n - 1, by simp only [List.length_cons] at hn; omega⟩
      have hrest : q.Represents ((a ++ [x]) ++ b) := by simpa using h
      rw [List.head?_cons, foreach, h.next_eq, ih hrest (by simpa using hn), Option.map_some]

/-- The back pointer of an element is the address behind those in front. -/
theorem prev_eq (h : q.Represents (a ++ x :: b)) : q.prev x = behind .first a :=
  ((linked_append .first a (x :: b)).mp h.linked).2.2.1

/-- Linked elements up to a null pointer are all there are. -/
theorem linked_unique {s : Slot α} {l l' : List α} (h : q.Linked s l)
    (hnull : q.load (behind s l) = none) (h' : q.Linked s l')
    (hnull' : q.load (behind s l') = none) : l = l' := by
  induction l generalizing s l' with
  | nil =>
      cases l' with
      | nil => rfl
      | cons x l' => cases hnull.symm.trans h'.1
  | cons x l ih =>
      cases l' with
      | nil => cases hnull'.symm.trans h.1
      | cons y l' =>
          obtain rfl : x = y := Option.some.inj (h.1.symm.trans h'.1)
          rw [ih h.2.2 hnull h'.2.2 hnull']

/-- A queue is one list. -/
theorem unique {l l' : List α} (h : q.Represents l) (h' : q.Represents l') : l = l' :=
  linked_unique h.linked h.null h'.linked h'.null

/-- The address behind some elements is not one of a later element. -/
theorem behind_ne_next {l : List α} (hnodup : (a ++ l).Nodup) (hy : y ∈ l) :
    behind .first a ≠ .next y := by
  intro h
  rcases behind_mem Slot.first a with hb | ⟨x, hx, hb⟩
  · cases hb.symm.trans h
  · obtain rfl : x = y := Slot.next.inj (hb.symm.trans h)
    exact (List.nodup_append.mp hnodup).2.2 x hx x hy rfl

end Represents

/-! ## What the operations do -/

section Operations

variable {q : TailQueue α} {a b : List α} {x y : α}

omit [DecidableEq α] in
/-- A part of the list is replaced when the pointers of the rest are kept, but
for those at the joints. -/
theorem Represents.splice {q' : TailQueue α} {m m' : List α} (h : q.Represents (a ++ m ++ b))
    (hnodup : (a ++ m' ++ b).Nodup)
    (hload : ∀ t, t ≠ behind .first a → (∀ x ∈ m', t ≠ .next x) → q'.load t = q.load t)
    (hprev : ∀ x, x ∉ m' → b.head? ≠ some x → q'.prev x = q.prev x)
    (hlinked : q'.Linked (behind .first a) m')
    (hjoint : q'.load (behind (behind .first a) m') = b.head?)
    (hback : ∀ x, b.head? = some x → q'.prev x = behind (behind .first a) m')
    (hlast : q'.last = if b = [] then behind (behind .first a) m' else q.last) :
    q'.Represents (a ++ m' ++ b) := by
  have hfront := hnodup.sublist (List.sublist_append_left _ b)
  have hdisjoint := (List.nodup_append.mp hnodup).2.2
  have hkept : ∀ x, x ∉ m' → x ∉ a → q'.load (.next x) = q.load (.next x) := by
    refine fun x hm ha => hload _ ?_ fun y hy heq => hm (Slot.next.inj heq ▸ hy)
    intro heq
    rcases behind_mem Slot.first a with hb | ⟨y, hy, hb⟩
    · cases heq.trans hb
    · exact ha (Slot.next.inj (heq.trans hb) ▸ hy)
  -- the elements in front
  have ha : q'.Linked .first a := by
    have hq := ((linked_append .first (a ++ m) b).mp h.linked).1
    refine ((linked_append .first a m).mp hq).1.congr (fun t ht => hload t ?_ ?_) fun x hx => ?_
    · rintro rfl
      exact behind_not_mem_slots (hfront.sublist (List.sublist_append_left _ _))
        (fun x _ => by simp) ht
    · intro x hx heq
      rcases mem_slots ht with hs | ⟨y, hy, hs⟩
      · cases heq.symm.trans hs
      · obtain rfl : x = y := Slot.next.inj (heq.symm.trans hs)
        exact (List.nodup_append.mp hfront).2.2 x hy x hx rfl
    · refine hprev x (fun hm => (List.nodup_append.mp hfront).2.2 x hx x hm rfl) fun hb => ?_
      exact hdisjoint x (List.mem_append_left _ hx) x (List.mem_of_head? hb) rfl
  cases b with
  | nil =>
      refine ⟨hnodup, ?_, ?_, ?_⟩
      · simpa [linked_append] using ⟨ha, hlinked⟩
      · simpa [behind_append] using hlast
      · simpa [behind_append] using hjoint
  | cons y b =>
      have hout : ∀ x ∈ y :: b, x ∉ m' ∧ x ∉ a := fun x hx =>
        ⟨fun hm => hdisjoint x (List.mem_append_right _ hm) x hx rfl,
          fun ha => hdisjoint x (List.mem_append_left _ ha) x hx rfl⟩
      have hnodupb := (List.nodup_append.mp hnodup).2.1
      obtain ⟨-, -, -, hq⟩ := (linked_append .first (a ++ m) (y :: b)).mp h.linked
      -- the elements behind the joint
      have hb : q'.Linked (.next y) b := by
        refine hq.congr (fun t ht => ?_) fun x hx => ?_
        · obtain ⟨x, hx, rfl⟩ : ∃ x ∈ y :: b, t = .next x := by
            rcases mem_slots ht with rfl | ⟨x, hx, rfl⟩
            · exact ⟨y, List.mem_cons_self, rfl⟩
            · exact ⟨x, List.mem_cons_of_mem _ hx, rfl⟩
          exact hkept x (hout x hx).1 (hout x hx).2
        · refine hprev x (hout x (List.mem_cons_of_mem _ hx)).1 fun heq => ?_
          obtain rfl := Option.some.inj heq
          exact (List.nodup_cons.mp hnodupb).1 hx
      have hend : ∀ l : List α, behind .first (l ++ y :: b) = behind (.next y) b := fun l => by
        rw [behind_append]
        rfl
      refine ⟨hnodup, ?_, ?_, ?_⟩
      · rw [linked_append, linked_append, behind_append]
        exact ⟨⟨ha, hlinked⟩, hjoint, hback y rfl, hb⟩
      · rw [hlast, if_neg (List.cons_ne_nil y b), h.last, hend, hend]
      · have hnull := h.null
        rw [hend] at hnull ⊢
        obtain ⟨x, hx, heq⟩ : ∃ x ∈ y :: b, behind (.next y) b = .next x := by
          rcases behind_mem (Slot.next y) b with heq | ⟨x, hx, heq⟩
          · exact ⟨y, List.mem_cons_self, heq⟩
          · exact ⟨x, List.mem_cons_of_mem _ hx, heq⟩
        rw [heq] at hnull ⊢
        rw [hkept x (hout x hx).1 (hout x hx).2, hnull]

/-- Removing an element takes it off the list. -/
theorem Represents.remove (h : q.Represents (a ++ x :: b)) : (q.remove x).Represents (a ++ b) := by
  have hmid : q.Represents (a ++ [x] ++ b) := by simpa using h
  obtain ⟨hx, hrest⟩ := List.nodup_cons.mp (List.nodup_middle.mp h.nodup)
  have hnodup : (a ++ [] ++ b).Nodup := by simpa using hrest
  have hnext := h.next_eq
  have hprev := h.prev_eq
  suffices hall : (q.remove x).Represents (a ++ [] ++ b) by simpa using hall
  cases b with
  | nil =>
      have hq : q.remove x = { q with last := behind .first a }.store (behind .first a) none := by
        simp only [TailQueue.remove, hnext, List.head?_nil, hprev]
      have hload : ∀ t, (q.remove x).load t = if t = behind .first a then none else q.load t := by
        intro t
        rw [hq, load_store]
        cases t <;> rfl
      refine hmid.splice hnodup (fun t ht _ => ?_) (fun z _ _ => ?_) trivial ?_ ?_ ?_
      · rw [hload, if_neg ht]
      · rw [hq, store_prev]
      · rw [hload]
        exact if_pos rfl
      · exact fun z hz => by cases hz
      · rw [hq, store_last, if_pos rfl]
        rfl
  | cons y b =>
      have hxy : x ≠ y := fun heq => hx (by simp [heq])
      have hq : q.remove x = (q.setPrev y (behind .first a)).store (behind .first a) (some y) := by
        have hkept : (q.setPrev y (behind .first a)).prev x = behind .first a := by
          rw [setPrev_prev, if_neg hxy, hprev]
        have hsame : (q.setPrev y (behind .first a)).next x = some y := hnext
        simp only [TailQueue.remove, hnext, List.head?_cons, hprev, hkept, hsame]
      have hload : ∀ t, (q.remove x).load t =
          if t = behind .first a then some y else q.load t := by
        intro t
        rw [hq, load_store, load_setPrev]
      refine hmid.splice hnodup (fun t ht _ => ?_) (fun z _ hz => ?_) trivial ?_ ?_ ?_
      · rw [hload, if_neg ht]
      · have hne : z ≠ y := fun heq => hz (by rw [heq, List.head?_cons])
        rw [hq, store_prev, setPrev_prev, if_neg hne]
      · rw [hload]
        exact if_pos rfl
      · intro z hz
        obtain rfl : y = z := Option.some.inj hz
        rw [hq, store_prev, setPrev_prev, if_pos rfl]
        rfl
      · rw [hq, store_last, setPrev_last, if_neg (List.cons_ne_nil y b)]

/-- Inserting an element puts it in front of the other. -/
theorem Represents.insertBefore (h : q.Represents (a ++ y :: b)) (hx : x ∉ a ++ y :: b) :
    (q.insertBefore y x).Represents (a ++ x :: y :: b) := by
  have hmid : q.Represents (a ++ [] ++ y :: b) := by simpa using h
  have hnodup : (a ++ [x] ++ y :: b).Nodup := by
    simpa using List.nodup_middle.mpr (List.nodup_cons.mpr ⟨hx, h.nodup⟩)
  have hxy : y ≠ x := fun heq => hx (by simp [heq])
  have hfree : Slot.next x ≠ behind .first a := fun heq =>
    Represents.behind_ne_next (l := [x]) (List.Nodup.sublist (List.sublist_append_left _ _) hnodup)
      (List.mem_singleton.mpr rfl) heq.symm
  have hq : q.insertBefore y x =
      (((q.setPrev x (behind .first a)).store (.next x) (some y)).store (behind .first a)
        (some x)).setPrev y (.next x) := by
    have hkept : (q.setPrev x (behind .first a)).prev y = behind .first a := by
      rw [setPrev_prev, if_neg hxy, h.prev_eq]
    simp only [TailQueue.insertBefore, h.prev_eq, store_prev, hkept]
  have hload : ∀ t, (q.insertBefore y x).load t =
      if t = behind .first a then some x else if t = .next x then some y else q.load t := by
    intro t
    rw [hq, load_setPrev, load_store, load_store, load_setPrev]
  have hprev : ∀ z, (q.insertBefore y x).prev z =
      if z = y then .next x else if z = x then behind .first a else q.prev z := by
    intro z
    rw [hq, setPrev_prev, store_prev, store_prev, setPrev_prev]
  suffices hall : (q.insertBefore y x).Represents (a ++ [x] ++ y :: b) by simpa using hall
  refine hmid.splice hnodup (fun t ht hm => ?_) (fun z hz hhead => ?_) ⟨?_, ?_, trivial⟩ ?_ ?_ ?_
  · rw [hload, if_neg ht, if_neg (hm x (List.mem_singleton.mpr rfl))]
  · have hne : z ≠ y := fun heq => hhead (by rw [heq, List.head?_cons])
    rw [hprev, if_neg hne, if_neg fun heq => hz (List.mem_singleton.mpr heq)]
  · rw [hload, if_pos rfl]
  · rw [hprev, if_neg hxy.symm, if_pos rfl]
  · exact (hload (.next x)).trans ((if_neg hfree).trans (if_pos rfl))
  · intro z hz
    obtain rfl : y = z := Option.some.inj hz
    rw [hprev, if_pos rfl]
    rfl
  · rw [hq, setPrev_last, store_last, store_last, setPrev_last, if_neg (List.cons_ne_nil y b)]

/-- Inserting an element at the end puts it behind all others. -/
theorem Represents.insertTail {l : List α} (h : q.Represents l) (hx : x ∉ l) :
    (q.insertTail x).Represents (l ++ [x]) := by
  have hmid : q.Represents (l ++ [] ++ []) := by simpa using h
  have hnodup : (l ++ [x] ++ []).Nodup := by
    simpa using List.nodup_middle.mpr
      (List.nodup_cons.mpr ⟨by simpa using hx, by simpa using h.nodup⟩)
  have hfree : Slot.next x ≠ behind .first l := fun heq =>
    Represents.behind_ne_next (l := [x]) (by simpa using hnodup) (List.mem_singleton.mpr rfl)
      heq.symm
  have hq : q.insertTail x = { ((((q.store (.next x) none).setPrev x (behind .first l)).store
      (behind .first l) (some x))) with last := .next x } := by
    simp only [TailQueue.insertTail, store_last, setPrev_last, h.last]
  have hload : ∀ t, (q.insertTail x).load t =
      if t = behind .first l then some x else if t = .next x then none else q.load t := by
    intro t
    rw [hq]
    have hlast : ∀ (q : TailQueue α) (s t : Slot α), { q with last := s }.load t = q.load t :=
      fun q s t => by cases t <;> rfl
    rw [hlast, load_store, load_setPrev, load_store]
  have hprev : ∀ z, (q.insertTail x).prev z = if z = x then behind .first l else q.prev z := by
    intro z
    rw [hq]
    simp only [store_prev, setPrev_prev]
  suffices hall : (q.insertTail x).Represents (l ++ [x] ++ []) by simpa using hall
  refine hmid.splice hnodup (fun t ht hm => ?_) (fun z hz _ => ?_) ⟨?_, ?_, trivial⟩ ?_ ?_ ?_
  · rw [hload, if_neg ht, if_neg (hm x (List.mem_singleton.mpr rfl))]
  · rw [hprev, if_neg fun heq => hz (List.mem_singleton.mpr heq)]
  · rw [hload, if_pos rfl]
  · rw [hprev, if_pos rfl]
  · exact (hload (.next x)).trans ((if_neg hfree).trans (if_pos rfl))
  · exact fun z hz => by cases hz
  · rw [hq, if_pos rfl]
    rfl

end Operations

end TailQueue

end MdioTools.Library
