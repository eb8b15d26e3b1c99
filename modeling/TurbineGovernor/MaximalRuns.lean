import Mathlib

/-!
# Maximal runs in a sequence

The elements of a sequence that satisfy a predicate come in runs, each of which
is maximal and is ended by an element that does not satisfy it. A tracker that
sees one element after the other knows where the open run has begun and what the
last completed one was.
-/

namespace MaximalRuns

universe u
variable {A : Type u} {p : A → Bool}

/-- The first element of the open run, and the first element of the last
completed run with the one that has ended it. -/
structure Tracker (A : Type u) where
  first : Option A
  last : Option (A × A)

namespace Tracker

def start : Tracker A := ⟨none, none⟩

def see (p : A → Bool) (t : Tracker A) (x : A) : Tracker A :=
  if p x then { t with first := some (t.first.getD x) }
  else match t.first with
    | none => t
    | some first => ⟨none, some (first, x)⟩

def track (p : A → Bool) (t : Tracker A) (l : List A) : Tracker A := l.foldl (see p) t

theorem see_in {x : A} (h : p x = true) (t : Tracker A) :
    t.see p x = { t with first := some (t.first.getD x) } :=
  if_pos h

theorem see_open {x first : A} {t : Tracker A} (h : p x = false) (hopen : t.first = some first) :
    t.see p x = ⟨none, some (first, x)⟩ := by
  simp [see, h, hopen]

theorem see_closed {x : A} {t : Tracker A} (h : p x = false) (hclosed : t.first = none) :
    t.see p x = t := by
  simp [see, h, hclosed]

theorem first_see {x : A} (h : p x = false) (t : Tracker A) : (t.see p x).first = none := by
  cases hfirst : t.first with
  | none => rw [see_closed h hfirst, hfirst]
  | some first => rw [see_open h hfirst]

/-- No run is open behind an element outside of all runs. -/
theorem first_track {l : List A} (h : ∀ x, l.getLast? = some x → p x = false) :
    (start.track p l).first = none := by
  rcases List.eq_nil_or_concat l with rfl | ⟨l, x, rfl⟩
  · rfl
  · rw [List.concat_eq_append] at h ⊢
    have hx : p x = false := h x List.getLast?_concat
    rw [track, List.foldl_append]
    exact first_see hx _

theorem track_run {t : Tracker A} {first : A} (hopen : t.first = some first) {l : List A}
    (h : ∀ x ∈ l, p x = true) : t.track p l = t := by
  induction l with
  | nil => rfl
  | cons x l ih =>
    have hsee : t.see p x = t := by
      rw [see_in (h x List.mem_cons_self), hopen, Option.getD_some, ← hopen]
    rw [track, List.foldl_cons, hsee]
    exact ih (fun y hy => h y (List.mem_cons_of_mem x hy))

/-- What is left open does not count. -/
theorem last_track {t : Tracker A} {l : List A} (hclosed : t.first = none)
    (h : l.Pairwise (fun x y => p x = true → p y = true)) : (t.track p l).last = t.last := by
  induction l generalizing t with
  | nil => rfl
  | cons x l ih =>
    obtain ⟨hx, hl⟩ := List.pairwise_cons.mp h
    rw [track, List.foldl_cons]
    by_cases hin : p x = true
    · have hopen : (t.see p x).first = some x := by
        rw [see_in hin, hclosed, Option.getD_none]
      have hrun := track_run hopen (fun y hy => hx y hy hin)
      rw [track] at hrun
      rw [hrun, see_in hin]
    · have hout : p x = false := eq_false_of_ne_true hin
      rw [see_closed hout hclosed]
      exact ih hclosed hl

/-- The last completed run of a sequence. -/
theorem track_completed {before rest after : List A} {first stop : A}
    (maximal : ∀ x, before.getLast? = some x → p x = false)
    (hrun : ∀ x ∈ first :: rest, p x = true) (hstop : p stop = false)
    (hafter : after.Pairwise (fun x y => p x = true → p y = true)) :
    (start.track p (before ++ (first :: rest) ++ stop :: after)).last = some (first, stop) := by
  have hbefore := first_track maximal
  have hfirst : ((start.track p before).see p first).first = some first := by
    rw [see_in (hrun first List.mem_cons_self), hbefore, Option.getD_none]
  have hrest : ((start.track p before).see p first).track p rest =
      (start.track p before).see p first :=
    track_run hfirst (fun x hx => hrun x (List.mem_cons_of_mem first hx))
  have hsplit : start.track p (before ++ (first :: rest) ++ stop :: after) =
      ((((start.track p before).see p first).track p rest).see p stop).track p after := by
    simp only [track, List.foldl_append, List.foldl_cons]
  rw [hsplit, hrest, see_open hstop hfirst]
  exact last_track rfl hafter

end Tracker

end MaximalRuns
