import EventScript.Builtin
import EventScript.Command.Arguments
import EventScript.Command.Folder
import EventScript.Command.Help
import EventScript.Command.Session
import EventScript.Config
import EventScript.Console
import EventScript.Emit
import EventScript.Evaluation
import EventScript.Key
import EventScript.Listing.Json
import EventScript.Listing.Outline
import EventScript.Listing.Tree
import EventScript.Machine
import EventScript.Main
import EventScript.Node.Basic
import EventScript.Node.Hoisting
import EventScript.Node.Parser
import EventScript.Number.Basic
import EventScript.Number.Decimal
import EventScript.Number.Format
import EventScript.Number.Shortest
import EventScript.Preamble
import EventScript.Proofs.Arrangement
import EventScript.Proofs.Bodies
import EventScript.Proofs.ByteOrder
import EventScript.Proofs.CallBudget
import EventScript.Proofs.Clauses
import EventScript.Proofs.Concatenation
import EventScript.Proofs.Conduct
import EventScript.Proofs.Confinement
import EventScript.Proofs.Contents
import EventScript.Proofs.Cursor
import EventScript.Proofs.Decimals
import EventScript.Proofs.DeclarationOrder
import EventScript.Proofs.ElseIf
import EventScript.Proofs.FailureLines
import EventScript.Proofs.Failures
import EventScript.Proofs.Faithful
import EventScript.Proofs.Fallbacks
import EventScript.Proofs.FirstFault
import EventScript.Proofs.Grammar
import EventScript.Proofs.Grouping
import EventScript.Proofs.Handlers
import EventScript.Proofs.History
import EventScript.Proofs.Hoisting
import EventScript.Proofs.Holding
import EventScript.Proofs.Indentation
import EventScript.Proofs.Judgements
import EventScript.Proofs.Leaving
import EventScript.Proofs.Lexemes
import EventScript.Proofs.Limits
import EventScript.Proofs.LineIndependence
import EventScript.Proofs.Lines
import EventScript.Proofs.Literals
import EventScript.Proofs.Locality
import EventScript.Proofs.Lockstep
import EventScript.Proofs.Masking
import EventScript.Proofs.Matching
import EventScript.Proofs.Multimap
import EventScript.Proofs.Names
import EventScript.Proofs.NumberTexts
import EventScript.Proofs.Numerals
import EventScript.Proofs.Outcomes
import EventScript.Proofs.ParsedTrees
import EventScript.Proofs.Parsing
import EventScript.Proofs.Parts
import EventScript.Proofs.Progress
import EventScript.Proofs.ReadBack
import EventScript.Proofs.Regimes
import EventScript.Proofs.Registration
import EventScript.Proofs.Rejections
import EventScript.Proofs.Renumbering
import EventScript.Proofs.Rows
import EventScript.Proofs.Rules
import EventScript.Proofs.Running
import EventScript.Proofs.Scanning
import EventScript.Proofs.ScopeForest
import EventScript.Proofs.Script
import EventScript.Proofs.Sessions
import EventScript.Proofs.StrayReturns
import EventScript.Proofs.Symbols
import EventScript.Proofs.Termination
import EventScript.Proofs.Translation
import EventScript.Proofs.TreeDepth
import EventScript.Proofs.Upkeep
import EventScript.Proofs.WellFormed
import EventScript.Registry
import EventScript.Store
import EventScript.SyntaxError
import EventScript.Text.Basic
import EventScript.Text.Extending
import EventScript.Text.Printable
import EventScript.Token.Basic
import EventScript.Token.Lexer
import EventScript.Value.Basic
import EventScript.Value.Numeric
import EventScript.Yaml.Basic
import EventScript.Yaml.Document
import EventScript.Yaml.Lexeme
import EventScript.Yaml.Scalar
