import Mathlib

/-!
# Runs of labelled machines

A machine is a step function on states and labels. A label that is not enabled
leaves the state as it is, so interleavings are plain label lists. `Along`
carries a condition on every step of a run; `run_invariant` is the one
induction that the protocol proofs use.
-/

namespace TransitionRuns

universe u v w
variable {S : Type u} {L : Type v}

def run (step : S → L → S) (s : S) (ls : List L) : S := ls.foldl step s

/-- Every step of the run meets `C` in the state it is taken from. -/
def Along (step : S → L → S) (C : S → L → Prop) : S → List L → Prop
  | _, [] => True
  | s, l :: ls => C s l ∧ Along step C (step s l) ls

@[simp] theorem run_nil (step : S → L → S) (s : S) : run step s [] = s := rfl

@[simp] theorem run_cons (step : S → L → S) (s : S) (l : L) (ls : List L) :
    run step s (l :: ls) = run step (step s l) ls := rfl

theorem run_append (step : S → L → S) (s : S) (ls ms : List L) :
    run step s (ls ++ ms) = run step (run step s ls) ms :=
  List.foldl_append

@[simp] theorem run_snoc (step : S → L → S) (s : S) (ls : List L) (l : L) :
    run step s (ls ++ [l]) = step (run step s ls) l := by
  rw [run_append]
  rfl

@[simp] theorem along_nil (step : S → L → S) (C : S → L → Prop) (s : S) :
    Along step C s [] := trivial

@[simp] theorem along_cons (step : S → L → S) (C : S → L → Prop) (s : S) (l : L)
    (ls : List L) : Along step C s (l :: ls) ↔ C s l ∧ Along step C (step s l) ls := Iff.rfl

instance decidableAlong (step : S → L → S) (C : S → L → Prop) [∀ s l, Decidable (C s l)] :
    (s : S) → (ls : List L) → Decidable (Along step C s ls)
  | _, [] => isTrue trivial
  | s, l :: ls =>
    have := decidableAlong step C (step s l) ls
    inferInstanceAs (Decidable (C s l ∧ Along step C (step s l) ls))

/-- A condition on the labels alone holds along every run over such labels. -/
theorem along_of_forall {step : S → L → S} {C : L → Prop} (s : S) {ls : List L}
    (h : ∀ l ∈ ls, C l) : Along step (fun _ l => C l) s ls := by
  induction ls generalizing s with
  | nil => trivial
  | cons l ls ih =>
    exact ⟨h l List.mem_cons_self, ih (step s l) (fun m hm => h m (List.mem_cons_of_mem l hm))⟩

theorem along_append {step : S → L → S} {C : S → L → Prop} {s : S} {ls ms : List L} :
    Along step C s (ls ++ ms) ↔ Along step C s ls ∧ Along step C (run step s ls) ms := by
  induction ls generalizing s with
  | nil => simp
  | cons l ls ih => rw [List.cons_append, along_cons, along_cons, ih, run_cons, and_assoc]

theorem along_and {step : S → L → S} {C D : S → L → Prop} {s : S} {ls : List L}
    (h : Along step C s ls) (h' : Along step D s ls) :
    Along step (fun s l => C s l ∧ D s l) s ls := by
  induction ls generalizing s with
  | nil => trivial
  | cons l ls ih => exact ⟨⟨h.1, h'.1⟩, ih h.2 h'.2⟩

theorem along_mono {step : S → L → S} {C D : S → L → Prop} (weaker : ∀ s l, C s l → D s l) {s : S}
    {ls : List L} (h : Along step C s ls) : Along step D s ls := by
  induction ls generalizing s with
  | nil => trivial
  | cons l ls ih => exact ⟨weaker s l h.1, ih h.2⟩

/-- Preservation is only asked of the steps that meet the condition. -/
theorem run_invariant {step : S → L → S} {C : S → L → Prop} {P : S → Prop}
    (preserves : ∀ s l, P s → C s l → P (step s l)) {s : S} {ls : List L}
    (initial : P s) (along : Along step C s ls) : P (run step s ls) := by
  induction ls generalizing s with
  | nil => exact initial
  | cons l ls ih => exact ih (preserves s l initial along.1) along.2

theorem run_invariant' {step : S → L → S} {P : S → Prop}
    (preserves : ∀ s l, P s → P (step s l)) {s : S} (initial : P s) (ls : List L) :
    P (run step s ls) := by
  induction ls generalizing s with
  | nil => exact initial
  | cons l ls ih => exact ih (preserves s l initial)

/-- Two machines on the same labels, kept in relation by the steps that meet
their conditions. -/
theorem along_simulation {S' : Type w} {step : S → L → S} {step' : S' → L → S'}
    {C : S → L → Prop} {D : S' → L → Prop} {R : S → S' → Prop}
    (agree : ∀ s s' l, R s s' → (C s l ↔ D s' l))
    (preserves : ∀ s s' l, R s s' → D s' l → R (step s l) (step' s' l)) {s : S} {s' : S'}
    (initial : R s s') (ls : List L) : Along step C s ls ↔ Along step' D s' ls := by
  induction ls generalizing s s' with
  | nil => exact Iff.rfl
  | cons l ls ih =>
    rw [along_cons, along_cons, agree s s' l initial]
    exact and_congr_right (fun hd => ih (preserves s s' l initial hd))

/-- A condition may be exchanged for one that agrees with it under an invariant;
the steps that meet it keep the invariant. -/
theorem along_congr {step : S → L → S} {C D : S → L → Prop} {P : S → Prop}
    (agree : ∀ s l, P s → (C s l ↔ D s l)) (preserves : ∀ s l, P s → D s l → P (step s l))
    {s : S} (initial : P s) (ls : List L) : Along step C s ls ↔ Along step D s ls := by
  refine along_simulation (R := fun s s' => s = s' ∧ P s) ?_ ?_ ⟨rfl, initial⟩ ls
  · rintro s _ l ⟨rfl, hp⟩
    exact agree s l hp
  · rintro s _ l ⟨rfl, hp⟩ hd
    exact ⟨rfl, preserves s l hp hd⟩

end TransitionRuns
