import Stylesheet.CommandLine
import Stylesheet.Extraction
import Stylesheet.Files.Resolution
import Stylesheet.Json
import Stylesheet.Lists
import Stylesheet.Loading
import Stylesheet.Main
import Stylesheet.Number.Style
import Stylesheet.Outline
import Stylesheet.Report.Diagnostic
import Stylesheet.Report.Error
import Stylesheet.Report.Log
import Stylesheet.Source.Capture
import Stylesheet.Statement.Header
import Stylesheet.Statement.Import
import Stylesheet.Text.Name
import Stylesheet.Text.Nesting
import Stylesheet.Text.Quoted
import Stylesheet.Text.WordChar
import Stylesheet.Tree.Json
import Stylesheet.Usage
import Stylesheet.Value.Argument
import Stylesheet.Proofs.Scanning
import Stylesheet.Proofs.Steps
import Stylesheet.Proofs.Balance
import Stylesheet.Proofs.Nodes
import Stylesheet.Proofs.Shape
import Stylesheet.Proofs.ImportGraph
import Stylesheet.Proofs.ImportStack
import Stylesheet.Proofs.Lexemes
import Stylesheet.Proofs.Places
import Stylesheet.Proofs.Automaton
import Stylesheet.Proofs.Faults
import Stylesheet.Proofs.Usage
import Stylesheet.Proofs.Fronts
import Stylesheet.Proofs.Comments
import Stylesheet.Proofs.Concatenation
import Stylesheet.Proofs.Rescanning
import Stylesheet.Proofs.Sources
import Stylesheet.Proofs.RawText
import Stylesheet.Proofs.Anomalies
import Stylesheet.Proofs.Probes
import Stylesheet.Proofs.Copies
import Stylesheet.Proofs.Layout
import Stylesheet.Proofs.Numerals
import Stylesheet.Proofs.Serialization
import Stylesheet.Proofs.Invocation
import Stylesheet.Proofs.Classification
import Stylesheet.Proofs.NestedStrings
import Stylesheet.Proofs.FixedPoints
import Stylesheet.Proofs.Words
import Stylesheet.Proofs.Condensing
import Stylesheet.Proofs.InterpolatedSelectors
import Stylesheet.Proofs.ArgumentLists
import Stylesheet.Proofs.Cuts
import Stylesheet.Proofs.ValueKinds
import Stylesheet.Proofs.Assignments
import Stylesheet.Proofs.Signatures
import Stylesheet.Proofs.Targets
import Stylesheet.Proofs.WrittenNames
import Stylesheet.Proofs.Preorder
import Stylesheet.Proofs.Separators
import Stylesheet.Proofs.Groups
import Stylesheet.Proofs.ColorSearch
import Stylesheet.Proofs.Tokens
