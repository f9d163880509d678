import LogicTree.Main
import LogicTree.Proofs.Float64.Parts
import LogicTree.Proofs.Float64.Order
import LogicTree.Proofs.Float64.Rounding
import LogicTree.Proofs.Float64.Nearest
import LogicTree.Proofs.Float64.Arithmetic
import LogicTree.Proofs.Float64.Sums
import LogicTree.Proofs.Float64.Accumulation
import LogicTree.Proofs.Float64.Products
import LogicTree.Proofs.Decimal.Reading
import LogicTree.Proofs.Decimal.Shortest
import LogicTree.Proofs.Steps
import LogicTree.Proofs.Digits
import LogicTree.Proofs.Sinks
import LogicTree.Proofs.Reports
import LogicTree.Proofs.Labels
import LogicTree.Proofs.Labels.Grammar
import LogicTree.Proofs.Labels.Plain
import LogicTree.Proofs.Levels
import LogicTree.Proofs.Elements
import LogicTree.Proofs.PathCount
import LogicTree.Proofs.Checks
import LogicTree.Proofs.Paths
import LogicTree.Proofs.Sampling.Selection
import LogicTree.Proofs.Sampling.UnitDraws
import LogicTree.Proofs.Sampling
import LogicTree.Proofs.Sampling.Intervals
import LogicTree.Proofs.Sampling.Accounts
import LogicTree.Proofs.Sampling.UnitRuns
import LogicTree.Proofs.Sampling.Search
import LogicTree.Proofs.Sampling.RunningSums
import LogicTree.Proofs.Choices
import LogicTree.Proofs.Enumeration
import LogicTree.Proofs.Prefixes
import LogicTree.Proofs.TotalWeight
import LogicTree.Proofs.JointWeights
import LogicTree.Proofs.Json.Numerals
import LogicTree.Proofs.Json.Strings
import LogicTree.Proofs.Json.Grammar
import LogicTree.Proofs.Json.Markup
import LogicTree.Proofs.Json.Documents
import LogicTree.Proofs.Json.Delivery
import LogicTree.Proofs.Json.Values
import LogicTree.Proofs.Json.Nesting
import LogicTree.Proofs.Document.Members
import LogicTree.Proofs.Document.Spellings
import LogicTree.Proofs.Document.Records
import LogicTree.Proofs.Document.RoundTrip
import LogicTree.Proofs.Document.Delivery
import LogicTree.Proofs.Document.Floats
import LogicTree.Proofs.Document.Values
import LogicTree.Proofs.Document.Loading
import LogicTree.Proofs.Document.Respelling
import LogicTree.Proofs.Toml.Strings
import LogicTree.Proofs.Toml.Numbers
import LogicTree.Proofs.Toml.Documents
import LogicTree.Proofs.Command.Outcomes
import LogicTree.Proofs.Command.Sampling
import LogicTree.Proofs.Command.Listing
import LogicTree.Proofs.Command.Outlines
import LogicTree.Proofs.Command.Printing
import LogicTree.Proofs.Command.Validation
import LogicTree.Proofs.FileSystem.Places
import LogicTree.Proofs.FileSystem.Changes
import LogicTree.Proofs.Storage.Temporaries
import LogicTree.Proofs.Storage.Stages
import LogicTree.Proofs.Storage.Replacing
import LogicTree.Proofs.Storage.Runs
import LogicTree.Proofs.Storage.Refusals
import LogicTree.Proofs.Storage.Settings
