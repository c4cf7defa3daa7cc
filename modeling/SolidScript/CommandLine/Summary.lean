import SolidScript.Model.Evaluation

/-!
# Summaries

What an evaluation made, for people to read.
-/

namespace SolidScript.Summary

def rule : String := String.ofList (List.replicate 60 '━')

def padRight (width : Nat) (s : String) : String := s ++ String.ofList (List.replicate (width - s.length) ' ')

def padLeft (width : Nat) (s : String) : String := String.ofList (List.replicate (width - s.length) ' ') ++ s

def artifactLine (a : Artifact Float) : String :=
  let (vertices, triangles) := match a.geometry with
    | some m => (m.vertexCount, m.triangleCount)
    | none => (0, 0)
  "  " ++ padRight 24 a.id ++ " " ++ padLeft 8 (toString vertices) ++ " vertices " ++
    padLeft 8 (toString triangles) ++ " triangles"

/-- Three places behind the point. -/
def point (v : Vec3 Float) : String := "[" ++ ", ".intercalate (v.toList.map (Decimal.fixedText 3)) ++ "]"

def boundsLines (b : Bounds Float) : List String :=
  if b.isEmpty then [] else ["", "Bounds: " ++ point b.low ++ " .. " ++ point b.high]

def diagnosticLines (diagnostics : List Diagnostic) : List String :=
  if diagnostics.isEmpty then [] else ["", "Diagnostics:"] ++ diagnostics.map fun d => "  " ++ d.text

/-- The last line is empty, since the time follows. -/
def lines (e : Evaluation) : List String :=
  [rule, if e.hasErrors then "Evaluated with errors" else "Evaluated", rule, "", "Artifacts:"] ++
    (if e.graph.visible.isEmpty then ["  (none visible)"] else []) ++
    e.graph.visibleArtifacts.map artifactLine ++ boundsLines e.graph.bounds ++
    diagnosticLines e.diagnostics ++ [""]

end SolidScript.Summary
