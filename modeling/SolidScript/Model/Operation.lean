import SolidScript.Shape.Primitive
import SolidScript.Solid.Boolean
import SolidScript.Space.Vec2

/-!
# Operations

What a script can ask for. Some operations make a solid of their own, the others change the solid
that they name as their source.
-/

namespace SolidScript

/-- Edges of a box. -/
inductive EdgeSelection where
  | index (i : Int)
  | all
deriving DecidableEq, Repr

/-- Angles are in degrees. -/
inductive Operation where
  | primitive (shape : Primitive Float)
  | extrude (source : String) (face : Face) (distance : Float)
  | fillet (source : String) (edges : EdgeSelection) (radius : Float) (segments : Option Nat)
  | chamfer (source : String) (edges : EdgeSelection) (distance : Float)
  | boolean (kind : BooleanKind) (first second : String)
  | revolve (profile : List (Vec2 Float)) (axis : Vec3 Float) (angle : Float) (center : Vec3 Float)
      (segments : Option Nat)
  | linearPattern (source : String) (direction : Vec3 Float) (count : Int) (spacing : Float)
  | circularPattern (source : String) (axis center : Vec3 Float) (count : Int) (angle : Float)
  | shell (source : String) (thickness : Float) (openFaces : List Face)
  | mirror (source : String) (normal point : Vec3 Float) (keepOriginal : Bool)
  /-- Without a center the middle of the bounding box stays. -/
  | scale (source : String) (factor : Vec3 Float) (center : Option (Vec3 Float))
  /-- Without a center the middle of the bounding box stays. -/
  | rotate (source : String) (axis : Vec3 Float) (angle : Float) (center : Option (Vec3 Float))
  | translate (source : String) (offset : Vec3 Float)
  | sweep (profile : List (Vec2 Float)) (path : List (Vec3 Float))
  | loft (sections : List (List (Vec2 Float))) (heights : List Float)
  | draft (source : String) (angle : Float) (direction : Vec3 Float) (neutral : Option Float)
  | torus (majorRadius minorRadius : Float) (center : Vec3 Float) (segments tubeSegments : Option Nat)
  | helix (radius pitch turns tubeRadius : Float) (center : Vec3 Float) (segments : Option Nat)
  | gridPattern (source : String) (direction₁ : Vec3 Float) (count₁ : Int) (spacing₁ : Float)
      (direction₂ : Vec3 Float) (count₂ : Int) (spacing₂ : Float)
  /-- The angle, the pitch and the growth of the radius are for each copy. -/
  | spiralPattern (source : String) (axis center : Vec3 Float) (count : Int)
      (angle pitch radiusGrowth : Float)

inductive Category where
  | primitives
  | extrude
  | fillet
  | boolean
  | chamfer
  | revolve
  | linearPattern
  | circularPattern
  | shell
  | torus
  | helix
  | mirror
  | scale
  | rotate
  | translate
  | sweep
  | loft
  | draft
  | gridPattern
  | spiralPattern
deriving DecidableEq, Repr

namespace Category

/-- The order in which categories are evaluated. -/
def all : List Category :=
  [primitives, extrude, fillet, boolean, chamfer, revolve, linearPattern, circularPattern, shell, torus,
    helix, mirror, scale, rotate, translate, sweep, loft, draft, gridPattern, spiralPattern]

def name : Category → String
  | primitives => "primitives"
  | extrude => "extrude"
  | fillet => "fillet"
  | boolean => "boolean"
  | chamfer => "chamfer"
  | revolve => "revolve"
  | linearPattern => "linearPattern"
  | circularPattern => "circularPattern"
  | shell => "shell"
  | torus => "torus"
  | helix => "helix"
  | mirror => "mirror"
  | scale => "scale"
  | rotate => "rotate"
  | translate => "translate"
  | sweep => "sweep"
  | loft => "loft"
  | draft => "draft"
  | gridPattern => "gridPattern"
  | spiralPattern => "spiralPattern"

/-- Whether operations of the category make a solid of their own. -/
def isGenerative : Category → Bool
  | primitives | boolean | revolve | sweep | loft | torus | helix => true
  | _ => false

end Category

namespace Operation

def category : Operation → Category
  | primitive .. => .primitives
  | extrude .. => .extrude
  | fillet .. => .fillet
  | chamfer .. => .chamfer
  | boolean .. => .boolean
  | revolve .. => .revolve
  | linearPattern .. => .linearPattern
  | circularPattern .. => .circularPattern
  | shell .. => .shell
  | mirror .. => .mirror
  | scale .. => .scale
  | rotate .. => .rotate
  | translate .. => .translate
  | sweep .. => .sweep
  | loft .. => .loft
  | draft .. => .draft
  | torus .. => .torus
  | helix .. => .helix
  | gridPattern .. => .gridPattern
  | spiralPattern .. => .spiralPattern

/-- Names of the solids that are read. -/
def sources : Operation → List String
  | boolean _ first second => [first, second]
  | extrude source .. | fillet source .. | chamfer source .. | linearPattern source ..
  | circularPattern source .. | shell source .. | mirror source .. | scale source .. | rotate source ..
  | translate source .. | draft source .. | gridPattern source .. | spiralPattern source .. => [source]
  | primitive .. | revolve .. | sweep .. | loft .. | torus .. | helix .. => []

def isGenerative (o : Operation) : Bool := o.category.isGenerative

end Operation

end SolidScript
