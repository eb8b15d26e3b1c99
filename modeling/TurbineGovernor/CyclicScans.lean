import TurbineGovernor.TransitionRuns

/-!
# Cyclic scans of a list

A scan takes the elements of a list one after the other and returns to the
start when it has passed the last one. It may pause anywhere. What it does is
seen as a list of events; the events between two returns are the whole list in
order, wherever the scan paused.
-/

namespace CyclicScans
open TransitionRuns

universe u v w
variable {E : Type u}

inductive Event (E : Type u) where
  | take (e : E)
  | wrap
  deriving DecidableEq

/-- `Scans items pos events pos'`: the events lead from one position to the other. -/
inductive Scans (items : List E) : Nat → List (Event E) → Nat → Prop
  | pause (pos : Nat) : Scans items pos [] pos
  | take {pos pos' : Nat} {e : E} {events : List (Event E)} (next : items[pos]? = some e)
      (rest : Scans items (pos + 1) events pos') : Scans items pos (.take e :: events) pos'
  | wrap {pos' : Nat} {events : List (Event E)} (rest : Scans items 0 events pos') :
      Scans items items.length (.wrap :: events) pos'

namespace Scans
variable {items : List E}

theorem one_take {pos : Nat} {e : E} (next : items[pos]? = some e) :
    Scans items pos [.take e] (pos + 1) :=
  .take next (.pause _)

theorem one_wrap : Scans items items.length [.wrap] 0 := .wrap (.pause _)

theorem append {pos mid pos' : Nat} {events more : List (Event E)}
    (h : Scans items pos events mid) (h' : Scans items mid more pos') :
    Scans items pos (events ++ more) pos' := by
  induction h with
  | pause pos => exact h'
  | take next _ ih => exact .take next (ih h')
  | wrap _ ih => exact .wrap (ih h')

theorem split {pos pos' : Nat} {events more : List (Event E)}
    (h : Scans items pos (events ++ more) pos') :
    ∃ mid, Scans items pos events mid ∧ Scans items mid more pos' := by
  induction events generalizing pos with
  | nil => exact ⟨pos, .pause pos, h⟩
  | cons event events ih =>
    cases h with
    | take next rest =>
      obtain ⟨mid, first, second⟩ := ih rest
      exact ⟨mid, .take next first, second⟩
    | wrap rest =>
      obtain ⟨mid, first, second⟩ := ih rest
      exact ⟨mid, .wrap first, second⟩

theorem nil_end {pos pos' : Nat} (h : Scans items pos [] pos') : pos' = pos := by
  cases h with
  | pause => rfl

/-- A return to the start leaves the scan at the start. -/
theorem wrap_end {pos pos' : Nat} {events : List (Event E)}
    (h : Scans items pos (events ++ [.wrap]) pos') : pos' = 0 := by
  obtain ⟨mid, _, second⟩ := h.split
  cases second with
  | wrap rest => exact rest.nil_end

/-- Up to the next return the scan takes what is left of the list. -/
theorem taken_to_wrap {pos pos' : Nat} {events more : List (Event E)}
    (h : Scans items pos (events ++ .wrap :: more) pos') (nowrap : Event.wrap ∉ events) :
    events = (items.drop pos).map Event.take := by
  induction events generalizing pos with
  | nil =>
    cases h with
    | wrap _ => simp
  | cons event events ih =>
    have hrest : Event.wrap ∉ events := fun hmem => nowrap (List.mem_cons_of_mem event hmem)
    cases h with
    | take next rest =>
      obtain ⟨hlt, hget⟩ := List.getElem?_eq_some_iff.mp next
      rw [List.drop_eq_getElem_cons hlt, List.map_cons, hget, ← ih rest hrest]
    | wrap _ => exact absurd List.mem_cons_self nowrap

/-- Every round, from the start or from a return to the next return, takes the
whole list. -/
theorem round {pos' : Nat} {before events more : List (Event E)}
    (h : Scans items 0 (before ++ events ++ .wrap :: more) pos')
    (starts : before = [] ∨ ∃ earlier, before = earlier ++ [.wrap])
    (nowrap : Event.wrap ∉ events) : events = items.map Event.take := by
  rw [List.append_assoc] at h
  obtain ⟨mid, first, second⟩ := h.split
  have hmid : mid = 0 := by
    rcases starts with rfl | ⟨earlier, rfl⟩
    · exact first.nil_end
    · exact first.wrap_end
  rw [hmid] at second
  simpa using second.taken_to_wrap nowrap

end Scans

/-- In a round over distinct elements each of them is taken once. -/
theorem count_take [DecidableEq E] {items : List E} (distinct : items.Nodup) (e : E) :
    (items.map Event.take).count (Event.take e) = if e ∈ items then 1 else 0 := by
  have inj : Function.Injective (Event.take : E → Event E) := by
    intro a b h
    cases h
    rfl
  rw [List.count_map_of_injective items Event.take inj]
  split
  · rename_i hmem
    exact List.count_eq_one_of_mem distinct hmem
  · rename_i hmem
    exact List.count_eq_zero.mpr hmem

section Machines
variable {S : Type v} {L : Type w}

/-- What the steps of a run emit, in order. -/
def trace (step : S → L → S) (emit : S → L → List (Event E)) : S → List L → List (Event E)
  | _, [] => []
  | s, l :: ls => emit s l ++ trace step emit (step s l) ls

/-- A machine each of whose steps pauses, takes or returns does so over a run. -/
theorem trace_scans {step : S → L → S} {emit : S → L → List (Event E)} {C : S → L → Prop}
    {P : S → Prop} {items : List E} {pos : S → Nat}
    (scans : ∀ s l, P s → C s l → Scans items (pos s) (emit s l) (pos (step s l)))
    (preserves : ∀ s l, P s → C s l → P (step s l)) {s : S} {ls : List L}
    (initial : P s) (along : Along step C s ls) :
    Scans items (pos s) (trace step emit s ls) (pos (run step s ls)) := by
  induction ls generalizing s with
  | nil => exact .pause _
  | cons l ls ih =>
    obtain ⟨first, rest⟩ := along
    exact (scans s l initial first).append (ih (preserves s l initial first) rest)

/-- What taking an element brings about, and every step keeps, holds at the end
for all that has been taken. -/
theorem trace_taken {step : S → L → S} {emit : S → L → List (Event E)} {C : S → L → Prop}
    {P : S → Prop} {Good : E → S → Prop}
    (takes : ∀ s l, P s → C s l → ∀ e, .take e ∈ emit s l → Good e (step s l))
    (keeps : ∀ s l, P s → C s l → ∀ e, Good e s → Good e (step s l))
    (preserves : ∀ s l, P s → C s l → P (step s l)) {s : S} {ls : List L}
    (initial : P s) (along : Along step C s ls) :
    ∀ e, .take e ∈ trace step emit s ls → Good e (run step s ls) := by
  have kept : ∀ ls s, P s → Along step C s ls → ∀ e, Good e s → Good e (run step s ls) := by
    intro ls
    induction ls with
    | nil => exact fun _ _ _ _ good => good
    | cons l ls ih =>
      rintro s initial ⟨first, rest⟩ e good
      exact ih _ (preserves s l initial first) rest e (keeps s l initial first e good)
  induction ls generalizing s with
  | nil => exact fun e h => absurd h List.not_mem_nil
  | cons l ls ih =>
    obtain ⟨first, rest⟩ := along
    have next := preserves s l initial first
    intro e h
    rcases List.mem_append.mp h with now | after
    · exact kept ls _ next rest e (takes s l initial first e now)
    · exact ih next rest e after

end Machines

end CyclicScans
