import BeliefRevision.Atom
import BeliefRevision.Belief.Base
import BeliefRevision.Belief.Basic
import BeliefRevision.Clause.Basic
import BeliefRevision.Clause.ClauseSet
import BeliefRevision.Connective
import BeliefRevision.Contraction
import BeliefRevision.Entailment
import BeliefRevision.Entrenchment
import BeliefRevision.Formula.Basic
import BeliefRevision.Formula.NormalForm
import BeliefRevision.Formula.Parser
import BeliefRevision.Formula.Printer
import BeliefRevision.Json.Basic
import BeliefRevision.Json.Layout
import BeliefRevision.Json.Number
import BeliefRevision.Json.Quoted
import BeliefRevision.Json.Token
import BeliefRevision.Literal
import BeliefRevision.Main
import BeliefRevision.Model
import BeliefRevision.ParseError
import BeliefRevision.Proofs.Acceptance
import BeliefRevision.Proofs.BaseChange
import BeliefRevision.Proofs.ClausalForm
import BeliefRevision.Proofs.ClauseProducts
import BeliefRevision.Proofs.ClauseReading
import BeliefRevision.Proofs.ClauseTexts
import BeliefRevision.Proofs.CollectionOrder
import BeliefRevision.Proofs.Combinations
import BeliefRevision.Proofs.Consequence
import BeliefRevision.Proofs.ContractionSearch
import BeliefRevision.Proofs.Depth
import BeliefRevision.Proofs.Derivations
import BeliefRevision.Proofs.DistinctTexts
import BeliefRevision.Proofs.DocumentedOrder
import BeliefRevision.Proofs.Enumeration
import BeliefRevision.Proofs.Equivalents
import BeliefRevision.Proofs.ErrorPositions
import BeliefRevision.Proofs.FailedReadings
import BeliefRevision.Proofs.FloatArithmetic
import BeliefRevision.Proofs.FormulaLines
import BeliefRevision.Proofs.Grammar
import BeliefRevision.Proofs.Grouping
import BeliefRevision.Proofs.InputLines
import BeliefRevision.Proofs.LeastModels
import BeliefRevision.Proofs.Lexing
import BeliefRevision.Proofs.MissingParentheses
import BeliefRevision.Proofs.NormalForm
import BeliefRevision.Proofs.NormalNumbers
import BeliefRevision.Proofs.OtherSettings
import BeliefRevision.Proofs.Parentheses
import BeliefRevision.Proofs.ParenthesisPairs
import BeliefRevision.Proofs.Passes
import BeliefRevision.Proofs.Postulates
import BeliefRevision.Proofs.Printing
import BeliefRevision.Proofs.Pruning
import BeliefRevision.Proofs.QuotedText
import BeliefRevision.Proofs.ReadableFormulas
import BeliefRevision.Proofs.Reading
import BeliefRevision.Proofs.Refusals
import BeliefRevision.Proofs.Refutation
import BeliefRevision.Proofs.Reloading
import BeliefRevision.Proofs.Renormalizing
import BeliefRevision.Proofs.Reordering
import BeliefRevision.Proofs.Replaying
import BeliefRevision.Proofs.Rereading
import BeliefRevision.Proofs.Resolvents
import BeliefRevision.Proofs.RevisionOutcome
import BeliefRevision.Proofs.Rewriting
import BeliefRevision.Proofs.Rounding
import BeliefRevision.Proofs.Saturation
import BeliefRevision.Proofs.ScoreValues
import BeliefRevision.Proofs.SearchOrder
import BeliefRevision.Proofs.Sessions
import BeliefRevision.Proofs.StoredRecords
import BeliefRevision.Proofs.Storing
import BeliefRevision.Proofs.Trimming
import BeliefRevision.Proofs.Writings
import BeliefRevision.Resolution
import BeliefRevision.Revision.Basic
import BeliefRevision.Revision.Step
import BeliefRevision.Session
import BeliefRevision.Settings
import BeliefRevision.SortedSet
import BeliefRevision.Store.Basic
import BeliefRevision.Store.Disk.Basic
import BeliefRevision.Store.Disk.Lemmas
import BeliefRevision.Store.Record
import BeliefRevision.Terminal.Arguments
import BeliefRevision.Terminal.Command
import BeliefRevision.Terminal.Input
import BeliefRevision.Terminal.Rendering
import BeliefRevision.Terminal.Run
import BeliefRevision.Text.Blank
import BeliefRevision.Text.Digits
import BeliefRevision.Token.Basic
import BeliefRevision.Token.Lexer
