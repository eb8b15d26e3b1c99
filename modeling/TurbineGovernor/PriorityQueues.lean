import Mathlib

/-!
# Priority queues that follow a comparator

A queue is known by its laws only: `top` returns an element that no stored
element exceeds, and `pop` removes exactly that element. Which of several
equivalent elements comes first is left open, so a result about every instance
covers every binary heap. Two sorted-list instances show that the laws do not
decide ties. The order in which a queue is emptied says what a scan from the
top sees, and how far it gets.
-/

namespace PriorityQueues

universe u v w

/-- `less a b` is the comparator: `b` comes out before `a`. -/
class PriorityQueue (Q : Type u) (A : outParam (Type v)) (less : outParam (A → A → Prop)) where
  empty : Q
  push : Q → A → Q
  top : Q → Option A
  pop : Q → Q
  elems : Q → Multiset A
  elems_empty : elems empty = 0
  elems_push : ∀ q a, elems (push q a) = a ::ₘ elems q
  top_eq_none : ∀ q, top q = none ↔ elems q = 0
  elems_pop : ∀ q a, top q = some a → elems q = a ::ₘ elems (pop q)
  top_greatest : ∀ q a, top q = some a → ∀ b ∈ elems q, ¬ less a b

attribute [simp] PriorityQueue.elems_empty PriorityQueue.elems_push

section Laws
variable {Q : Type u} {A : Type v} {less : A → A → Prop} [PriorityQueue Q A less]

theorem mem_of_top {q : Q} {a : A} (h : PriorityQueue.top q = some a) :
    a ∈ PriorityQueue.elems q := by
  rw [PriorityQueue.elems_pop q a h]
  exact Multiset.mem_cons_self a _

theorem card_pop {q : Q} {a : A} (h : PriorityQueue.top q = some a) :
    (PriorityQueue.elems q).card = (PriorityQueue.elems (PriorityQueue.pop q)).card + 1 := by
  rw [PriorityQueue.elems_pop q a h, Multiset.card_cons]

theorem mem_of_mem_pop {q : Q} {a b : A} (h : PriorityQueue.top q = some a)
    (hb : b ∈ PriorityQueue.elems (PriorityQueue.pop q)) : b ∈ PriorityQueue.elems q := by
  rw [PriorityQueue.elems_pop q a h]
  exact Multiset.mem_cons_of_mem hb

def drain : Nat → Q → List A
  | 0, _ => []
  | left + 1, q =>
    match PriorityQueue.top q with
    | none => []
    | some a => a :: drain left (PriorityQueue.pop q)

/-- The stored elements as repeated `top` and `pop` yield them. -/
def order (q : Q) : List A := drain (PriorityQueue.elems q).card q

theorem order_of_top {q : Q} {a : A} (h : PriorityQueue.top q = some a) :
    order q = a :: order (PriorityQueue.pop q) := by
  simp only [order]
  rw [card_pop h]
  simp only [drain, h]

theorem order_of_empty {q : Q} (h : PriorityQueue.top q = none) : order q = [] := by
  simp only [order]
  rw [(PriorityQueue.top_eq_none q).mp h, Multiset.card_zero]
  rfl

/-- Removing the top is an induction on the contents. -/
theorem queue_induction {motive : Q → Prop}
    (empty : ∀ q, PriorityQueue.top q = none → motive q)
    (pop : ∀ q a, PriorityQueue.top q = some a → motive (PriorityQueue.pop q) → motive q)
    (q : Q) : motive q := by
  induction hcard : (PriorityQueue.elems q).card generalizing q with
  | zero => exact empty q ((PriorityQueue.top_eq_none q).mpr (Multiset.card_eq_zero.mp hcard))
  | succ n ih =>
    cases htop : PriorityQueue.top q with
    | none => exact empty q htop
    | some a =>
      have hpop := card_pop htop
      exact pop q a htop (ih (PriorityQueue.pop q) (by omega))

theorem coe_order (q : Q) : (order q : Multiset A) = PriorityQueue.elems q := by
  induction q using queue_induction with
  | empty q htop =>
    rw [order_of_empty htop, (PriorityQueue.top_eq_none q).mp htop, Multiset.coe_nil]
  | pop q a htop ih =>
    rw [order_of_top htop, PriorityQueue.elems_pop q a htop, ← ih, Multiset.cons_coe]

theorem mem_order {q : Q} {a : A} : a ∈ order q ↔ a ∈ PriorityQueue.elems q := by
  rw [← coe_order q, Multiset.mem_coe]

/-- Nothing comes out before an element that exceeds it. -/
theorem order_pairwise (q : Q) : (order q).Pairwise (fun a b => ¬ less a b) := by
  induction q using queue_induction with
  | empty q htop =>
    rw [order_of_empty htop]
    exact List.Pairwise.nil
  | pop q a htop ih =>
    rw [order_of_top htop]
    refine List.pairwise_cons.mpr ⟨?_, ih⟩
    intro b hb
    exact PriorityQueue.top_greatest q a htop b (mem_of_mem_pop htop (mem_order.mp hb))

end Laws

/-- A scan that stops at the first element it does not take leaves nothing
behind exactly when no such element comes before one it would take. -/
theorem dropWhile_none_iff {A : Type v} (p : A → Bool) (as : List A) :
    (∀ a ∈ as.dropWhile p, p a = false) ↔ as.Pairwise (fun a b => p b = true → p a = true) := by
  induction as with
  | nil => simp
  | cons a as ih =>
    cases ha : p a with
    | true =>
      rw [List.dropWhile_cons_of_pos ha, ih, List.pairwise_cons]
      exact ⟨fun h => ⟨fun _ _ _ => ha, h⟩, fun h => h.2⟩
    | false =>
      rw [List.dropWhile_cons_of_neg (by simp [ha])]
      constructor
      · intro h
        refine List.pairwise_cons.mpr ⟨?_, ?_⟩
        · intro b hb hp
          exact absurd (h b (List.mem_cons_of_mem a hb)) (by simp [hp])
        · apply List.pairwise_of_forall_mem_list
          intro b _ c hc hp
          exact absurd (h c (List.mem_cons_of_mem a hc)) (by simp [hp])
      · intro h b hb
        rcases List.mem_cons.mp hb with rfl | hb
        · exact ha
        · by_contra hp
          have := (List.pairwise_cons.mp h).1 b hb (by simpa using hp)
          simp [ha] at this

/-- Then the scan has split the list by the predicate. -/
theorem filter_of_dropWhile_none {A : Type v} {p : A → Bool} {as : List A}
    (h : ∀ a ∈ as.dropWhile p, p a = false) :
    as.filter p = as.takeWhile p ∧ as.filter (fun a => !p a) = as.dropWhile p := by
  have taken : ∀ a ∈ as.takeWhile p, p a = true := fun a ha => List.mem_takeWhile_imp ha
  have split := List.takeWhile_append_dropWhile (p := p) (l := as)
  constructor
  · calc as.filter p = (as.takeWhile p ++ as.dropWhile p).filter p := by rw [split]
      _ = as.takeWhile p := by
        rw [List.filter_append, List.filter_eq_self.mpr taken,
          List.filter_eq_nil_iff.mpr (fun a ha => by simp [h a ha]), List.append_nil]
  · calc as.filter (fun a => !p a)
          = (as.takeWhile p ++ as.dropWhile p).filter (fun a => !p a) := by rw [split]
      _ = as.dropWhile p := by
        rw [List.filter_append, List.filter_eq_nil_iff.mpr (fun a ha => by simp [taken a ha]),
          List.filter_eq_self.mpr (fun a ha => by simp [h a ha]), List.nil_append]

/-- A list kept in descending key order. `older` says whether an equal element
already stored stays in front of a new one. -/
structure SortedQueue {A : Type v} {K : Type w} [LinearOrder K] (key : A → K)
    (older : Bool) where
  items : List A
  sorted : items.Pairwise (fun a b => key b ≤ key a)

namespace SortedQueue
variable {A : Type v} {K : Type w} [LinearOrder K]

def place (key : A → K) (older : Bool) (a : A) : List A → List A
  | [] => [a]
  | b :: bs =>
    if key b < key a ∨ (older = false ∧ key b = key a) then a :: b :: bs
    else b :: place key older a bs

theorem place_perm (key : A → K) (older : Bool) (a : A) (bs : List A) :
    (place key older a bs).Perm (a :: bs) := by
  induction bs with
  | nil => exact List.Perm.refl _
  | cons b bs ih =>
    simp only [place]
    split
    · exact List.Perm.refl _
    · exact (ih.cons b).trans (List.Perm.swap a b bs)

theorem place_sorted (key : A → K) (older : Bool) (a : A) {bs : List A}
    (h : bs.Pairwise (fun a b => key b ≤ key a)) :
    (place key older a bs).Pairwise (fun a b => key b ≤ key a) := by
  induction bs with
  | nil => exact List.pairwise_singleton _ a
  | cons b bs ih =>
    obtain ⟨hb, hbs⟩ := List.pairwise_cons.mp h
    simp only [place]
    split
    · rename_i front
      have hba : key b ≤ key a := by
        rcases front with lt | ⟨_, eq⟩
        · exact le_of_lt lt
        · exact le_of_eq eq
      refine List.pairwise_cons.mpr ⟨?_, h⟩
      intro c hc
      rcases List.mem_cons.mp hc with rfl | hc
      · exact hba
      · exact le_trans (hb c hc) hba
    · rename_i behind
      have hab : key a ≤ key b := not_lt.mp (fun lt => behind (Or.inl lt))
      refine List.pairwise_cons.mpr ⟨?_, ih hbs⟩
      intro c hc
      rcases List.mem_cons.mp ((place_perm key older a bs).mem_iff.mp hc) with rfl | hc
      · exact hab
      · exact hb c hc

instance (key : A → K) (older : Bool) :
    PriorityQueue (SortedQueue key older) A (fun a b => key a < key b) where
  empty := ⟨[], List.Pairwise.nil⟩
  push q a := ⟨place key older a q.items, place_sorted key older a q.sorted⟩
  top q := q.items.head?
  pop q := ⟨q.items.tail, q.sorted.tail⟩
  elems q := q.items
  elems_empty := rfl
  elems_push q a := Multiset.coe_eq_coe.mpr (place_perm key older a q.items)
  top_eq_none q := by
    rw [List.head?_eq_none_iff, Multiset.coe_eq_zero]
  elems_pop q a h := by
    exact congrArg (fun items : List A => (items : Multiset A)) (List.eq_cons_of_mem_head? h)
  top_greatest q a h b hb := by
    rw [Multiset.mem_coe, List.eq_cons_of_mem_head? h] at hb
    have sorted := q.sorted
    rw [List.eq_cons_of_mem_head? h] at sorted
    rcases List.mem_cons.mp hb with rfl | hb
    · exact lt_irrefl _
    · exact not_lt.mpr ((List.pairwise_cons.mp sorted).1 b hb)

end SortedQueue

end PriorityQueues
