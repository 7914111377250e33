import ValidatorGen.Text.Lines
import ValidatorGen.Text.Blank
import ValidatorGen.Text.Ascending
import ValidatorGen.Table
import ValidatorGen.Json.Number
import ValidatorGen.Json.Shortest
import ValidatorGen.Json.Basic
import ValidatorGen.Json.Writer
import ValidatorGen.Json.Reader.Tree
import ValidatorGen.Schema.Basic
import ValidatorGen.Schema.Read
import ValidatorGen.Schema.Code
import ValidatorGen.Code.Printer
import ValidatorGen.Schema.Needs
import ValidatorGen.Schema.Legality
import ValidatorGen.Schema.Scope
import ValidatorGen.Check.Evaluator
import ValidatorGen.Check.Library
import ValidatorGen.Module.Build
import ValidatorGen.Project
import ValidatorGen.Disk.Basic
import ValidatorGen.CommandLine.Run
import ValidatorGen.Main
import ValidatorGen.Proofs.Check.Run
import ValidatorGen.Proofs.Check.Accept
import ValidatorGen.Proofs.Check.Conforms
import ValidatorGen.Proofs.Module.Registry
import ValidatorGen.Proofs.Module.Build
import ValidatorGen.Proofs.Module.Order
import ValidatorGen.Proofs.Module.Bindings
import ValidatorGen.Proofs.Module.LoadOrder
import ValidatorGen.Proofs.Code.Layout
import ValidatorGen.Proofs.Code.Literal
import ValidatorGen.Proofs.Code.Pieces
import ValidatorGen.Proofs.Code.Print
import ValidatorGen.Proofs.Schema.Legality
import ValidatorGen.Proofs.Schema.Pieces
import ValidatorGen.Proofs.Schema.Mentions
import ValidatorGen.Proofs.Schema.SelfContained
import ValidatorGen.Proofs.Disk.Directories
import ValidatorGen.Proofs.Module.References
import ValidatorGen.Proofs.CommandLine.Generate
import ValidatorGen.Proofs.CommandLine.Write
import ValidatorGen.Proofs.Project
import ValidatorGen.Proofs.CommandLine.Exports
import ValidatorGen.Proofs.Code.Scope
import ValidatorGen.Proofs.Schema.Uses
import ValidatorGen.Proofs.Schema.Marked
import ValidatorGen.Proofs.Schema.Sources
import ValidatorGen.Proofs.Module.Names
import ValidatorGen.Proofs.Schema.Legible
import ValidatorGen.Proofs.Module.Base
import ValidatorGen.Proofs.Check.Prune
import ValidatorGen.Proofs.Check.Idempotent
import ValidatorGen.Proofs.Config.Stages
import ValidatorGen.Proofs.Schema.RoundTrip
import ValidatorGen.Proofs.Check.Guarded
import ValidatorGen.Proofs.Check.Inlines
import ValidatorGen.Proofs.Config.Locations
import ValidatorGen.Proofs.Schema.WellFormed
import ValidatorGen.Proofs.Module.LeastOrder
import ValidatorGen.Proofs.Check.Dispatch
import ValidatorGen.Proofs.Check.FailFast
import ValidatorGen.Proofs.Check.Collect
import ValidatorGen.Proofs.Check.Keys
import ValidatorGen.Proofs.Schema.FirstOffence
import ValidatorGen.Proofs.Module.Unresolved
import ValidatorGen.Proofs.Module.Imports
import ValidatorGen.Proofs.Json.Names
import ValidatorGen.Proofs.Path.Normal
import ValidatorGen.Proofs.Config.Selection
import ValidatorGen.Proofs.Config.RoundTrip
import ValidatorGen.Proofs.Text.Lines
import ValidatorGen.Proofs.Code.Printed
import ValidatorGen.Proofs.Schema.Literals
import ValidatorGen.Proofs.Module.Literals
