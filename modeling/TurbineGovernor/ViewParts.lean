import Mathlib

/-!
# Parts of a view

A box holds a value between two bounds. Setting a bound moves the other one out
of its way, and setting a value moves it between the bounds.

A view is told values by key. What it shows of a key is a predicate, and it
follows the reports when a report is shown at once and stays shown until its
key is reported again. Most of what a view shows is a slot for one key.
-/

namespace SpinBoxes

structure SpinBox (α : Type) [LinearOrder α] where
  minimum : α
  maximum : α
  value : α
  low : minimum ≤ value
  high : value ≤ maximum

namespace SpinBox
variable {α : Type} [LinearOrder α] (b : SpinBox α)

/-- The nearest value between two bounds. -/
def bound (lo hi val : α) : α := max lo (min hi val)

theorem bound_low (lo hi val : α) : lo ≤ bound lo hi val := le_max_left _ _

theorem bound_high {lo hi : α} (h : lo ≤ hi) (val : α) : bound lo hi val ≤ hi :=
  max_le h (min_le_left _ _)

theorem ordered : b.minimum ≤ b.maximum := b.low.trans b.high

/-- A maximum below the minimum is raised to it. -/
def setRange (lo hi : α) : SpinBox α where
  minimum := lo
  maximum := max lo hi
  value := bound lo (max lo hi) b.value
  low := bound_low _ _ _
  high := bound_high (le_max_left _ _) _

def setMinimum (lo : α) : SpinBox α := b.setRange lo (max b.maximum lo)

def setMaximum (hi : α) : SpinBox α := b.setRange (min b.minimum hi) hi

def setValue (val : α) : SpinBox α where
  minimum := b.minimum
  maximum := b.maximum
  value := bound b.minimum b.maximum val
  low := bound_low _ _ _
  high := bound_high b.ordered _

/-- A new box of counts stands at zero. -/
def upTo (maximum : Nat) : SpinBox Int where
  minimum := 0
  maximum := maximum
  value := 0
  low := le_rfl
  high := Int.natCast_nonneg maximum

/-- Both bounds one after the other, which is what the callers do. -/
def setLimits (lo hi : α) : SpinBox α := (b.setMinimum lo).setMaximum hi

theorem setLimits_minimum (lo hi : α) : (b.setLimits lo hi).minimum = min lo hi := rfl

theorem setLimits_maximum (lo hi : α) : (b.setLimits lo hi).maximum = hi :=
  max_eq_right (min_le_right lo hi)

end SpinBox

end SpinBoxes

namespace ReportedViews

universe u u' v w x
variable {W : Type u} {W' : Type u'} {K : Type v} {V : Type w} {I : Type x}

structure Follows (report : W → K → V → W) (Shows : W → K → V → Prop) : Prop where
  shown : ∀ w k v, Shows (report w k v) k v
  kept : ∀ {w k v}, Shows w k v → ∀ {k'}, k' ≠ k → ∀ v', Shows (report w k' v') k v

section Slots
variable {A : Type x} {report : W → K → V → W}

/-- One part of the view is for one key. -/
theorem Follows.slot (get : W → A) (key : K) (make : V → A)
    (set : ∀ w v, get (report w key v) = make v)
    (frame : ∀ w k v, k ≠ key → get (report w k v) = get w) :
    Follows report (fun w k v => k = key → get w = make v) where
  shown w k v := by
    rintro rfl
    exact set w v
  kept := by
    intro w k v shows k' hne v' hkey
    rw [frame w k' v' (fun heq => hne (heq.trans hkey.symm))]
    exact shows hkey

/-- What holds from the first report of certain keys on. -/
theorem Follows.since {P : W → Prop} (keys : K → Prop)
    (starts : ∀ w k v, keys k → P (report w k v)) (keeps : ∀ w k v, P w → P (report w k v)) :
    Follows report (fun w k _ => keys k → P w) where
  shown w k v := starts w k v
  kept shows _ _ v' hkey := keeps _ _ v' (shows hkey)

theorem Follows.and {Shows Shows' : W → K → V → Prop} (h : Follows report Shows)
    (h' : Follows report Shows') : Follows report (fun w k v => Shows w k v ∧ Shows' w k v) where
  shown w k v := ⟨h.shown w k v, h'.shown w k v⟩
  kept shows _ hne v' := ⟨h.kept shows.1 hne v', h'.kept shows.2 hne v'⟩

theorem Follows.all {Shows : I → W → K → V → Prop} (h : ∀ i, Follows report (Shows i)) :
    Follows report (fun w k v => ∀ i, Shows i w k v) where
  shown w k v i := (h i).shown w k v
  kept shows _ hne v' i := (h i).kept (shows i) hne v'

theorem Follows.when {P : Prop} {Shows : W → K → V → Prop} (h : P → Follows report Shows) :
    Follows report (fun w k v => P → Shows w k v) where
  shown w k v hp := (h hp).shown w k v
  kept shows _ hne v' hp := (h hp).kept (shows hp) hne v'

/-- Several views that are told of everything. -/
theorem Follows.map {Shows : W → K → V → Prop} (h : Follows report Shows) :
    Follows (fun ws k v => ws.map (fun w => report w k v))
      (fun (ws : List W) k v => ∀ w ∈ ws, Shows w k v) where
  shown ws k v w hw := by
    obtain ⟨w', _, rfl⟩ := List.mem_map.mp hw
    exact h.shown w' k v
  kept shows _ hne v' w hw := by
    obtain ⟨w', hw', rfl⟩ := List.mem_map.mp hw
    exact h.kept (shows w' hw') hne v'

/-- A part of a view that is told of everything. -/
theorem Follows.part {report' : W' → K → V → W'} {Shows : W' → K → V → Prop}
    (h : Follows report' Shows) (part : W → W')
    (told : ∀ w k v, part (report w k v) = report' (part w) k v) :
    Follows report (fun w k v => Shows (part w) k v) where
  shown w k v := by
    rw [told]
    exact h.shown _ k v
  kept shows _ hne v' := by
    rw [told]
    exact h.kept shows hne v'

end Slots

end ReportedViews
