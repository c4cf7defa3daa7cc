import SolidScript.CommandLine.Invocation
import SolidScript.CommandLine.Run
import SolidScript.CommandLine.Summary
import SolidScript.Config.Basic
import SolidScript.Config.Load
import SolidScript.Feature.Draft
import SolidScript.Feature.EdgeTreatment
import SolidScript.Feature.Extrude
import SolidScript.Feature.Pattern
import SolidScript.Feature.Shell
import SolidScript.Feature.Sweep
import SolidScript.Feature.Transform
import SolidScript.Json.Basic
import SolidScript.Json.Geometry
import SolidScript.Json.Reader
import SolidScript.Json.Record
import SolidScript.Json.Writer
import SolidScript.Kernel
import SolidScript.Main
import SolidScript.Mesh.Basic
import SolidScript.Mesh.Build
import SolidScript.Mesh.Combine
import SolidScript.Mesh.Facing
import SolidScript.Mesh.Guarded
import SolidScript.Mesh.Topology
import SolidScript.Mesh.Weld
import SolidScript.Model.ArtifactGraph
import SolidScript.Model.DependencyGraph
import SolidScript.Model.Diagnostic
import SolidScript.Model.Evaluation
import SolidScript.Model.Operation
import SolidScript.Model.Plan
import SolidScript.Model.Schedule
import SolidScript.Model.Specification
import SolidScript.Model.SpecificationJson
import SolidScript.NameMap
import SolidScript.Number.Binary64
import SolidScript.Number.Decimal
import SolidScript.OperatorError
import SolidScript.Profile.Basic
import SolidScript.Profile.EarClipping
import SolidScript.Profile.Prism
import SolidScript.Proofs.AffineMaps
import SolidScript.Proofs.Angles
import SolidScript.Proofs.ArgumentOrder
import SolidScript.Proofs.Arguments
import SolidScript.Proofs.ArtifactGraph
import SolidScript.Proofs.BeveledBoxes
import SolidScript.Proofs.Boolean
import SolidScript.Proofs.BoxLevels
import SolidScript.Proofs.ClampNotes
import SolidScript.Proofs.CleanProfiles
import SolidScript.Proofs.Clipping
import SolidScript.Proofs.ClosedSurfaces
import SolidScript.Proofs.Construction
import SolidScript.Proofs.Copies
import SolidScript.Proofs.DeclarationOrder
import SolidScript.Proofs.DependencyGraph
import SolidScript.Proofs.DependencyOrder
import SolidScript.Proofs.Descent
import SolidScript.Proofs.Dissection
import SolidScript.Proofs.Distances
import SolidScript.Proofs.EarClipping
import SolidScript.Proofs.EdgeChecks
import SolidScript.Proofs.EdgeCounts
import SolidScript.Proofs.EdgeLiterals
import SolidScript.Proofs.EntryNames
import SolidScript.Proofs.Evaluation
import SolidScript.Proofs.ExactScalars
import SolidScript.Proofs.ExtrudedFaces
import SolidScript.Proofs.FailedEntries
import SolidScript.Proofs.Fans
import SolidScript.Proofs.FiniteGeometry
import SolidScript.Proofs.FloatErrors
import SolidScript.Proofs.FloatLimits
import SolidScript.Proofs.FloatUnits
import SolidScript.Proofs.FloatValues
import SolidScript.Proofs.Footprint
import SolidScript.Proofs.GeneratedNames
import SolidScript.Proofs.Generators
import SolidScript.Proofs.GraphBounds
import SolidScript.Proofs.GuardedReads
import SolidScript.Proofs.HollowBoxes
import SolidScript.Proofs.IdleLines
import SolidScript.Proofs.Joining
import SolidScript.Proofs.KnownFacets
import SolidScript.Proofs.LoadedGraph
import SolidScript.Proofs.LoftSections
import SolidScript.Proofs.MeshBounds
import SolidScript.Proofs.MeshEdits
import SolidScript.Proofs.MissingNames
import SolidScript.Proofs.NameMap
import SolidScript.Proofs.Negation
import SolidScript.Proofs.OperatorLimits
import SolidScript.Proofs.Outlines
import SolidScript.Proofs.ParsedNumbers
import SolidScript.Proofs.Peg
import SolidScript.Proofs.Plan
import SolidScript.Proofs.PlanCases
import SolidScript.Proofs.ReadBack
import SolidScript.Proofs.RecordBounds
import SolidScript.Proofs.Rejection
import SolidScript.Proofs.Reports
import SolidScript.Proofs.Rereading
import SolidScript.Proofs.RoundSolids
import SolidScript.Proofs.Rounding
import SolidScript.Proofs.ScaledOutlines
import SolidScript.Proofs.Schedule
import SolidScript.Proofs.SectionHeights
import SolidScript.Proofs.SpacedStatements
import SolidScript.Proofs.SpacedTerms
import SolidScript.Proofs.SpacedWords
import SolidScript.Proofs.Spacing
import SolidScript.Proofs.Specification
import SolidScript.Proofs.Splitting
import SolidScript.Proofs.StatementGrammar
import SolidScript.Proofs.StatementSyntax
import SolidScript.Proofs.StatementWords
import SolidScript.Proofs.Steps
import SolidScript.Proofs.StoredGraph
import SolidScript.Proofs.StoredSpecification
import SolidScript.Proofs.Termination
import SolidScript.Proofs.Treatments
import SolidScript.Proofs.TreeHistories
import SolidScript.Proofs.Trees
import SolidScript.Proofs.Usage
import SolidScript.Proofs.Visibility
import SolidScript.Proofs.Volumes
import SolidScript.Proofs.WeldDistance
import SolidScript.Proofs.Welding
import SolidScript.Proofs.WholeNumbers
import SolidScript.Scalar
import SolidScript.Script.Arguments
import SolidScript.Script.Call
import SolidScript.Script.Parse
import SolidScript.Script.Statement
import SolidScript.Script.Value
import SolidScript.Shape.BoxFrame
import SolidScript.Shape.Face
import SolidScript.Shape.Primitive
import SolidScript.Shape.Round
import SolidScript.Solid.Boolean
import SolidScript.Solid.Bsp
import SolidScript.Solid.Polygon
import SolidScript.Space.Axis
import SolidScript.Space.Bounds
import SolidScript.Space.Matrix4
import SolidScript.Space.Vec2
import SolidScript.Space.Vec3
import SolidScript.Text.Reader
import SolidScript.Toml.Basic
import SolidScript.Toml.Document
import SolidScript.Toml.Number
import SolidScript.Toml.Text
import SolidScript.Toml.Value
