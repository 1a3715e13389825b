import WorldLocks.Attribute.Builtin
import WorldLocks.Attribute.Definition
import WorldLocks.Attribute.Flag
import WorldLocks.CommandLine.Arguments
import WorldLocks.CommandLine.Run
import WorldLocks.Dbref
import WorldLocks.Fixture.Basic
import WorldLocks.Fixture.Document
import WorldLocks.Fixture.Load
import WorldLocks.FlagSet
import WorldLocks.Json.Basic
import WorldLocks.Json.Reader
import WorldLocks.Json.Writer
import WorldLocks.Lock.Compile
import WorldLocks.Lock.Cursor
import WorldLocks.Lock.Decompile
import WorldLocks.Lock.Error
import WorldLocks.Lock.Evaluate
import WorldLocks.Lock.Expansion
import WorldLocks.Lock.Expr
import WorldLocks.Lock.Gate
import WorldLocks.Lock.Item
import WorldLocks.Lock.Parser
import WorldLocks.Lock.Setting
import WorldLocks.Main
import WorldLocks.Matching.Basic
import WorldLocks.Matching.Stage
import WorldLocks.Object.Flag
import WorldLocks.Object.Kind
import WorldLocks.Operation
import WorldLocks.Pattern
import WorldLocks.Text.Basic
import WorldLocks.Text.Blank
import WorldLocks.Text.Bounded
import WorldLocks.Text.CaseTable
import WorldLocks.Text.HiddenTable
import WorldLocks.Text.Lowercase
import WorldLocks.Text.Number
import WorldLocks.Text.Quoted
import WorldLocks.World.Basic
import WorldLocks.World.Control
import WorldLocks.World.Definitions
import WorldLocks.World.Error
import WorldLocks.World.Inheritance
import WorldLocks.World.Lifecycle
import WorldLocks.World.Naming
import WorldLocks.World.Parentage
import WorldLocks.World.Placement
import WorldLocks.World.Settings
import WorldLocks.World.Values
import WorldLocks.Proofs.Growth
import WorldLocks.Proofs.References.Exact
import WorldLocks.Proofs.Parts.RoundTrip
import WorldLocks.Proofs.Evaluation.Verdict
import WorldLocks.Proofs.Parsing.Tests
import WorldLocks.Proofs.Parsing.Canonical
import WorldLocks.Proofs.Parts.Compiled
import WorldLocks.Proofs.Evaluation.Indirection
import WorldLocks.Proofs.Cache.Disturbance
import WorldLocks.Proofs.Relations.Attributes
import WorldLocks.Proofs.Walks
import WorldLocks.Proofs.Relations.Basic
import WorldLocks.Proofs.Relations.Steps
import WorldLocks.Proofs.Relations.Containment
import WorldLocks.Proofs.Relations.Descent
import WorldLocks.Proofs.Evaluation.Dark
import WorldLocks.Proofs.Evaluation.Hidden
import WorldLocks.Proofs.Evaluation.Length
import WorldLocks.Proofs.Parts.CutReferences
import WorldLocks.Proofs.Parts.Calls
import WorldLocks.Proofs.Setting
import WorldLocks.Proofs.LocksInEffect
import WorldLocks.Proofs.Destroyed.Gone
import WorldLocks.Proofs.Destroyed.Empty
import WorldLocks.Proofs.Refusals
import WorldLocks.Proofs.Lookups
import WorldLocks.Proofs.Declarations.Names
import WorldLocks.Proofs.Declarations.Resolution
import WorldLocks.Proofs.Declarations.Shadows
import WorldLocks.Proofs.Ancestry
import WorldLocks.Proofs.Copying
import WorldLocks.Proofs.Evaluation.Depth
import WorldLocks.Proofs.Declarations.Clearing
import WorldLocks.Proofs.Substitution
import WorldLocks.Proofs.Globs
import WorldLocks.Proofs.Nearby
import WorldLocks.Proofs.Cloning
import WorldLocks.Proofs.Siblings
import WorldLocks.Proofs.Cache.Writes
import WorldLocks.Proofs.Parsing.Strays
import WorldLocks.Proofs.Parts.Pieces
import WorldLocks.Proofs.Parts.Blanks
import WorldLocks.Proofs.Parts.SpacedTrees
import WorldLocks.Proofs.Parsing.Shape
import WorldLocks.Proofs.Numerals
import WorldLocks.Lock.Pass
import WorldLocks.Proofs.Places
import WorldLocks.Proofs.Passes
