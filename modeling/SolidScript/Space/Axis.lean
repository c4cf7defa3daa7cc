import SolidScript.Space.Vec3

/-!
# Axes
-/

namespace SolidScript

inductive Axis where
  | x
  | y
  | z
deriving DecidableEq, Repr

namespace Axis

def all : List Axis := [x, y, z]

def index : Axis → Nat
  | x => 0
  | y => 1
  | z => 2

/-- The axis that follows, from the last back to the first. -/
def next : Axis → Axis
  | x => y
  | y => z
  | z => x

/-- The two other axes in their order. -/
def others : Axis → Axis × Axis
  | x => (y, z)
  | y => (x, z)
  | z => (x, y)

end Axis

namespace Vec3

variable {α : Type}

def get (v : Vec3 α) : Axis → α
  | .x => v.x
  | .y => v.y
  | .z => v.z

def set (v : Vec3 α) (s : α) : Axis → Vec3 α
  | .x => { v with x := s }
  | .y => { v with y := s }
  | .z => { v with z := s }

/-- Zero but for one component. -/
def along [Scalar α] (axis : Axis) (s : α) : Vec3 α := zero.set s axis

section

variable {v w : Vec3 α} {s : α} {a : Axis}

theorem forall_get {r : α → Prop} (h : ∀ x ∈ v.toList, r x) (a : Axis) : r (v.get a) := by
  refine h _ ?_
  cases a <;> simp [toList, get]

@[simp] theorem get_map (f : α → α) : (v.map f).get a = f (v.get a) := by cases a <;> rfl

@[simp] theorem get_zipWith (f : α → α → α) : (zipWith f v w).get a = f (v.get a) (w.get a) := by cases a <;> rfl

variable [Scalar α]

@[simp] theorem get_add : (v + w).get a = v.get a + w.get a := by cases a <;> rfl

@[simp] theorem get_sub : (v - w).get a = v.get a - w.get a := by cases a <;> rfl

@[simp] theorem get_neg : (-v).get a = -v.get a := by cases a <;> rfl

@[simp] theorem get_div : (v / s).get a = v.get a / s := by cases a <;> rfl

theorem isFinite_get (h : v.isFinite = true) (a : Axis) : Scalar.isFinite (v.get a) = true := by
  unfold isFinite at h
  rw [Bool.and_eq_true, Bool.and_eq_true] at h
  obtain ⟨⟨hx, hy⟩, hz⟩ := h
  cases a
  · exact hx
  · exact hy
  · exact hz

end

end Vec3

end SolidScript
