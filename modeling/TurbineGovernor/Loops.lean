import Mathlib

/-!
# Loops

Three kinds of loops. A bounded retry loop has the shape
`while (n++ < max && test) body`. The counter is incremented on every evaluation
of the bound, also on the last one, so a loop that is stopped by its bound ends
with `max + 1` and a loop that is stopped by its test ends with the number of the
evaluation that failed. A loop over indices whose pass `g` for an index changes
only what a view `w` shows at that index acts on each index separately. A loop
over updates of disjoint parts makes one after another, each of a part of the
state that is its own: what an update establishes about its part is then still
true at the end, and a part that no update is for is as it was.
-/

namespace RetryLoops

universe u
variable {S : Type u}

/-- `retryLoop test body left n s` runs from counter value `n` with `left`
evaluations of the bound still to succeed. The test may change the state, as a
transfer made in the condition does. -/
def retryLoop (test : Nat → S → Bool × S) (body : Nat → S → S) : Nat → Nat → S → Nat × S
  | 0, n, s => (n + 1, s)
  | left + 1, n, s =>
    match test n s with
    | (true, s') => retryLoop test body left (n + 1) (body n s')
    | (false, s') => (n + 1, s')

/-- A test that fails at once ends the loop with the counter just incremented. -/
theorem retryLoop_stop {test : Nat → S → Bool × S} (body : Nat → S → S)
    {n : Nat} {s t : S} (h : test n s = (false, t)) (left : Nat) :
    retryLoop test body (left + 1) n s = (n + 1, t) := by
  simp only [retryLoop, h]

theorem retryLoop_step {test : Nat → S → Bool × S} (body : Nat → S → S)
    {n : Nat} {s t : S} (h : test n s = (true, t)) (left : Nat) :
    retryLoop test body (left + 1) n s = retryLoop test body left (n + 1) (body n t) := by
  simp only [retryLoop, h]

/-- What every pass keeps holds of the state in which the loop ends. -/
theorem retryLoop_invariant {P : S → Prop} {test : Nat → S → Bool × S} {body : Nat → S → S}
    (hTest : ∀ n s, P s → P (test n s).2) (hBody : ∀ n s, P s → P (body n s))
    (left n : Nat) (s : S) (initial : P s) : P (retryLoop test body left n s).2 := by
  induction left generalizing n s with
  | zero => exact initial
  | succ left ih =>
    have tested := hTest n s initial
    simp only [retryLoop]
    split
    · rename_i s' h
      rw [h] at tested
      exact ih (n + 1) (body n s') (hBody n s' tested)
    · rename_i s' h
      rw [h] at tested
      exact tested

end RetryLoops

namespace IndexedLoops

universe u v
variable {S : Type u} {V : Type v}

/-- Passes up to `n`, among indices below a bound under which they are
independent. -/
theorem foldl_range_view {g : S → Nat → S} {w : S → Nat → V} {f : Nat → V → V}
    {bound : Nat} (own : ∀ s i, i < bound → w (g s i) i = f i (w s i))
    (other : ∀ s i j, i < bound → j < bound → j ≠ i → w (g s i) j = w s j)
    {n : Nat} (hn : n ≤ bound) (s : S) {j : Nat} (hj : j < bound) :
    w ((List.range n).foldl g s) j = if j < n then f j (w s j) else w s j := by
  induction n with
  | zero => simp
  | succ n ih =>
    rw [List.range_succ, List.foldl_append, List.foldl_cons, List.foldl_nil]
    have before := ih (Nat.le_of_succ_le hn)
    by_cases same : j = n
    · subst same
      rw [own _ _ hj, before, if_neg (lt_irrefl j), if_pos (Nat.lt_succ_self j)]
    · rw [other _ _ _ hn hj same, before]
      by_cases hlt : j < n
      · rw [if_pos hlt, if_pos (Nat.lt_succ_of_lt hlt)]
      · rw [if_neg hlt, if_neg (fun h => hlt (Nat.lt_of_le_of_ne (Nat.lt_succ_iff.mp h) same))]

/-- What every pass keeps is kept by the loop. -/
theorem foldl_range_kept {P : S → Prop} {step : S → Nat → S}
    (keeps : ∀ s i, P s → P (step s i)) (n : Nat) {s : S} (initial : P s) :
    P ((List.range n).foldl step s) := by
  induction n with
  | zero => exact initial
  | succ n ih =>
    rw [List.range_succ, List.foldl_append]
    exact keeps _ n ih

/-- An invariant that goes with the index. -/
theorem foldl_range_invariant {P : Nat → S → Prop} {g : S → Nat → S} {s : S} {n : Nat}
    (initial : P 0 s)
    (preserves : ∀ i < n, P i ((List.range i).foldl g s) →
      P (i + 1) (g ((List.range i).foldl g s) i)) :
    P n ((List.range n).foldl g s) := by
  induction n with
  | zero => exact initial
  | succ n ih =>
    rw [List.range_succ, List.foldl_append]
    exact preserves n (Nat.lt_succ_self n) (ih (fun i hi => preserves i (Nat.lt_succ_of_lt hi)))

end IndexedLoops

namespace DisjointUpdates

universe u v w
variable {S : Type u} {T : Type v} {K : Type w}

/-- How a family of updates deals with the parts of a state. -/
structure Local (part : T → K) (update : S → T → S) (Inv : S → Prop) (Needs : T → Prop)
    (Same : K → S → S → Prop) : Prop where
  keeps : ∀ s t, Needs t → Inv s → Inv (update s t)
  /-- Another part is the same to every observer. -/
  other : ∀ s t k, Needs t → Inv s → part t ≠ k → Same k s (update s t)
  refl : ∀ k s, Same k s s
  trans : ∀ k s s' s'', Same k s s' → Same k s' s'' → Same k s s''

section Local
variable {part : T → K} {update : S → T → S} {Inv : S → Prop} {Needs : T → Prop}
  {Same : K → S → S → Prop}

theorem Local.foldl_keeps (loc : Local part update Inv Needs Same) {ts : List T}
    (needs : ∀ t ∈ ts, Needs t) {s : S} (initial : Inv s) : Inv (ts.foldl update s) := by
  induction ts generalizing s with
  | nil => exact initial
  | cons t ts ih =>
    exact ih (fun t' ht' => needs t' (List.mem_cons_of_mem t ht'))
      (loc.keeps s t (needs t List.mem_cons_self) initial)

theorem Local.foldl_other (loc : Local part update Inv Needs Same) {ts : List T}
    (needs : ∀ t ∈ ts, Needs t) {s : S} (initial : Inv s) {k : K} (apart : k ∉ ts.map part) :
    Same k s (ts.foldl update s) := by
  induction ts generalizing s with
  | nil => exact loc.refl k s
  | cons t ts ih =>
    rw [List.map_cons, List.mem_cons, not_or] at apart
    have hneeds := needs t List.mem_cons_self
    have hrest := ih (fun t' ht' => needs t' (List.mem_cons_of_mem t ht'))
      (loc.keeps s t hneeds initial) apart.2
    exact loc.trans k s _ _ (loc.other s t k hneeds initial (fun heq => apart.1 heq.symm)) hrest

/-- Each update is made from a state that keeps the invariant, and its part is
not touched afterwards. -/
theorem Local.foldl_each (loc : Local part update Inv Needs Same) {ts : List T}
    (needs : ∀ t ∈ ts, Needs t) {s : S} (initial : Inv s) (distinct : (ts.map part).Nodup) {t : T}
    (ht : t ∈ ts) :
    ∃ s', Inv s' ∧ Inv (update s' t) ∧ Same (part t) (update s' t) (ts.foldl update s) := by
  induction ts generalizing s with
  | nil => cases ht
  | cons t₀ ts ih =>
    rw [List.map_cons, List.nodup_cons] at distinct
    have hneeds := needs t₀ List.mem_cons_self
    have hnext := loc.keeps s t₀ hneeds initial
    have hrest : ∀ t' ∈ ts, Needs t' := fun t' ht' => needs t' (List.mem_cons_of_mem t₀ ht')
    rcases List.mem_cons.mp ht with rfl | hmem
    · exact ⟨s, initial, hnext, loc.foldl_other hrest hnext distinct.1⟩
    · exact ih hrest hnext distinct.2 hmem

end Local

end DisjointUpdates
