import SolidScript.Mesh.Combine
import SolidScript.OperatorError

/-!
# Reading vertices by their places

A triangle may name a vertex that does not exist. What reads vertices here looks for each of them, and breaks off at the
first that is missing.
-/

namespace SolidScript.Mesh.Guarded

open Scalar

variable {α : Type} [Scalar α]

def point (m : Mesh α) (i : Nat) : Except (OperatorError α) (Vec3 α) := Fault.item m.vertices i

def corners (m : Mesh α) (t : Triangle) : Except (OperatorError α) (Vec3 α × Vec3 α × Vec3 α) := do
  return (← point m t.a, ← point m t.b, ← point m t.c)

/-! ## Measures -/

def triangleNormal (m : Mesh α) (t : Triangle) : Except (OperatorError α) (Vec3 α) := do
  let (a, b, c) ← corners m t
  return Vec3.triangleNormal a b c

def signedCone (m : Mesh α) (t : Triangle) : Except (OperatorError α) α := do
  let (a, b, c) ← corners m t
  return a.dot (b.cross c) / 6

def signedVolume (m : Mesh α) : Except (OperatorError α) α :=
  m.triangles.foldlM (fun v t => return v + (← signedCone m t)) 0

/-! ## Normals -/

def addAt (n : Vec3 α) (sums : Array (Vec3 α)) (i : Nat) : Except (OperatorError α) (Array (Vec3 α)) := do
  let sum ← Fault.item sums i
  return sums.setIfInBounds i (sum + n)

def addFaceNormal (m : Mesh α) (sums : Array (Vec3 α)) (t : Triangle) :
    Except (OperatorError α) (Array (Vec3 α)) := do
  let n ← triangleNormal m t
  if flatNormal < n.norm then t.toList.foldlM (addAt n) sums else return sums

def faceNormalSums (m : Mesh α) : Except (OperatorError α) (Array (Vec3 α)) :=
  m.triangles.foldlM (addFaceNormal m) (Array.replicate m.vertexCount Vec3.zero)

def recomputeNormals (m : Mesh α) : Except (OperatorError α) (Mesh α) := do
  return { m with normals := some ((← faceNormalSums m).map vertexNormal) }

def ensureNormals (m : Mesh α) : Except (OperatorError α) (Mesh α) :=
  if m.normals.isSome then pure m else recomputeNormals m

/-! ## Turning and joining -/

def orientOutward (m : Mesh α) : Except (OperatorError α) (Mesh α) := do
  return if (← signedVolume m) < 0 then m.reverseWinding else m

def ensureIf (wanted : Bool) (m : Mesh α) : Except (OperatorError α) (Mesh α) :=
  if wanted then ensureNormals m else pure m

def merge (m n : Mesh α) : Except (OperatorError α) (Mesh α) := do
  let m ← ensureIf n.normals.isSome m
  let n ← ensureIf m.normals.isSome n
  return m.append n

def concat (meshes : List (Mesh α)) : Except (OperatorError α) (Mesh α) := meshes.foldlM merge empty

end SolidScript.Mesh.Guarded
