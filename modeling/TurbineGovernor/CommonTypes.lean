import Mathlib

/-!
# Types shared by the regulator and the HMI

Single precision values are kept as bit patterns: what the drivers do with
them is copying and the comparison `!=`, which is not bit equality on zeros and
NaNs.
-/

namespace CommonTypes

/-- Modes of a driver, in the order of the source's enumeration. -/
inductive DrvState where
  | running
  | stopped
  | comError
  | varError
  | unInit
  deriving DecidableEq, Repr

inductive QuState where
  | ok
  | overRange
  | underRange
  | comError
  deriving DecidableEq, Repr

namespace QuState

def code : QuState → Nat
  | ok => 0
  | overRange => 1
  | underRange => 2
  | comError => 3

/-- The cast from an integer; the codecs only produce values below four. -/
def ofCode : Nat → QuState
  | 0 => ok
  | 1 => overRange
  | 2 => underRange
  | _ => comError

theorem code_lt (q : QuState) : q.code < 4 := by
  cases q <;> decide

end QuState

structure IOAddr where
  uiHeader : BitVec 8 := 0
  uiModule : BitVec 8 := 0
  uiChannel : BitVec 8 := 0
  uiNumBits : BitVec 8 := 0
  deriving DecidableEq, Repr

/-- The bit pattern of an IEEE 754 single precision value. -/
abbrev Single := BitVec 32

namespace Single

def isNaN (x : Single) : Bool := decide ((x &&& 0x7fffffff#32) > 0x7f800000#32)

def isZero (x : Single) : Bool := x &&& 0x7fffffff#32 == 0#32

/-- The comparison `==` on floats. -/
def eq (x y : Single) : Bool := !isNaN x && !isNaN y && (x == y || (isZero x && isZero y))

/-- The comparison `!=` on floats. -/
def ne (x y : Single) : Bool := !eq x y

/-- Equal as patterns or as numbers. -/
def Same (x y : Single) : Prop := x = y ∨ eq x y = true

instance (x y : Single) : Decidable (Same x y) := inferInstanceAs (Decidable (_ ∨ _))

theorem eq_trans {x y z : Single} (hxy : eq x y = true) (hyz : eq y z = true) :
    eq x z = true := by
  simp only [eq, Bool.and_eq_true, Bool.not_eq_true', Bool.or_eq_true, beq_iff_eq] at *
  obtain ⟨⟨hx, _⟩, hxy⟩ := hxy
  obtain ⟨⟨_, hz⟩, hyz⟩ := hyz
  refine ⟨⟨hx, hz⟩, ?_⟩
  rcases hxy with rfl | ⟨zx, zy⟩
  · exact hyz
  rcases hyz with rfl | ⟨_, zz⟩
  · exact Or.inr ⟨zx, zy⟩
  · exact Or.inr ⟨zx, zz⟩

theorem same_symm {x y : Single} (h : Same x y) : Same y x := by
  rcases h with rfl | h
  · exact Or.inl rfl
  apply Or.inr
  simp only [eq, Bool.and_eq_true, Bool.not_eq_true', Bool.or_eq_true, beq_iff_eq] at h ⊢
  obtain ⟨⟨hx, hy⟩, heq⟩ := h
  exact ⟨⟨hy, hx⟩, heq.imp Eq.symm And.symm⟩

theorem same_of_not_ne {x y : Single} (h : ne x y = false) : Same x y :=
  Or.inr (by simpa [ne] using h)

theorem same_trans {x y z : Single} (hxy : Same x y) (hyz : Same y z) : Same x z := by
  rcases hxy with rfl | hxy
  · exact hyz
  rcases hyz with rfl | hyz
  · exact Or.inr hxy
  · exact Or.inr (eq_trans hxy hyz)

end Single

/-- What the drivers use of libmodbus' float codec: reading back what was set. -/
structure FloatAbcd where
  setFloatAbcd : Single → BitVec 16 × BitVec 16
  getFloatAbcd : BitVec 16 → BitVec 16 → Single
  get_set : ∀ f, getFloatAbcd (setFloatAbcd f).1 (setFloatAbcd f).2 = f

attribute [simp] FloatAbcd.get_set

/-- Big endian words, as the suffix ABCD and the documents name them. The library
has them on a big endian host; on a little endian one it stores all four bytes
reversed, under the same law. -/
def floatAbcd : FloatAbcd where
  setFloatAbcd f := (f.extractLsb' 16 16, f.extractLsb' 0 16)
  getFloatAbcd hi lo := hi ++ lo
  get_set f := by
    ext i hi
    simp only [BitVec.getElem_append, BitVec.getElem_extractLsb']
    split
    · simp [BitVec.getLsbD_eq_getElem, hi]
    · rename_i h
      simp [show 16 + (i - 16) = i by omega, BitVec.getLsbD_eq_getElem, hi]

end CommonTypes
