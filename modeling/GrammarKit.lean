import GrammarKit.Analysis.First
import GrammarKit.Analysis.Follow
import GrammarKit.Analysis.PrecedenceTable
import GrammarKit.Analysis.Productive
import GrammarKit.Analysis.Validation
import GrammarKit.Analysis.View
import GrammarKit.Declarations
import GrammarKit.Derivation.Complete
import GrammarKit.Derivation.Form
import GrammarKit.Diagnostic
import GrammarKit.Fault
import GrammarKit.Frame
import GrammarKit.Grammar.Basic
import GrammarKit.Grammar.Build
import GrammarKit.Grammar.FreshName
import GrammarKit.Grammar.RuleGraph
import GrammarKit.Grammar.WellFormed
import GrammarKit.Journal
import GrammarKit.Lexer.Sync
import GrammarKit.Lexer.TokenReport
import GrammarKit.Number.Nearest
import GrammarKit.Precedence
import GrammarKit.Proofs.Build.Accepted
import GrammarKit.Proofs.Build.FirstBreach
import GrammarKit.Proofs.Build.FreshNames
import GrammarKit.Proofs.Build.Lookups
import GrammarKit.Proofs.Build.Names
import GrammarKit.Proofs.Build.ReadBack
import GrammarKit.Proofs.Build.Represented
import GrammarKit.Proofs.Build.Valid
import GrammarKit.Proofs.Build.WellFormed
import GrammarKit.Proofs.Conflicts
import GrammarKit.Proofs.Cost.DeclaredTower
import GrammarKit.Proofs.Cost.Expansions
import GrammarKit.Proofs.Cost.Least
import GrammarKit.Proofs.Cost.LeastTables
import GrammarKit.Proofs.Cost.Order
import GrammarKit.Proofs.Cost.Overflow
import GrammarKit.Proofs.Cost.Sweeps
import GrammarKit.Proofs.Derivations
import GrammarKit.Proofs.EndOfInput
import GrammarKit.Proofs.First.Exact
import GrammarKit.Proofs.First.Frame
import GrammarKit.Proofs.First.Scan
import GrammarKit.Proofs.Follow.Exact
import GrammarKit.Proofs.Follow.Flows
import GrammarKit.Proofs.Follow.Textbook
import GrammarKit.Proofs.Generator.Agenda
import GrammarKit.Proofs.Generator.Cheapest
import GrammarKit.Proofs.Generator.CheapestSentence
import GrammarKit.Proofs.Generator.CheapestText
import GrammarKit.Proofs.Generator.Consulted
import GrammarKit.Proofs.Generator.Dearest
import GrammarKit.Proofs.Generator.DearestRound
import GrammarKit.Proofs.Generator.DearestText
import GrammarKit.Proofs.Generator.Fruitful
import GrammarKit.Proofs.Generator.Lookahead
import GrammarKit.Proofs.Generator.Needs
import GrammarKit.Proofs.Generator.Picks
import GrammarKit.Proofs.Generator.Productivity
import GrammarKit.Proofs.Generator.Runs
import GrammarKit.Proofs.Generator.Sound
import GrammarKit.Proofs.Generator.Steps
import GrammarKit.Proofs.Generator.Weights
import GrammarKit.Proofs.Implicit.Ambiguities
import GrammarKit.Proofs.Implicit.Analyses
import GrammarKit.Proofs.Implicit.Built
import GrammarKit.Proofs.Implicit.Language
import GrammarKit.Proofs.Implicit.Padding
import GrammarKit.Proofs.Implicit.Simulation
import GrammarKit.Proofs.Implicit.Unchanged
import GrammarKit.Proofs.LexerTokens
import GrammarKit.Proofs.Monotone
import GrammarKit.Proofs.Outcomes
import GrammarKit.Proofs.Passes.Relaxations
import GrammarKit.Proofs.Passes.Sets
import GrammarKit.Proofs.Passes.Watched
import GrammarKit.Proofs.Paths
import GrammarKit.Proofs.Picture.Drawing
import GrammarKit.Proofs.Picture.ReadBack
import GrammarKit.Proofs.Picture.Rows
import GrammarKit.Proofs.Precedences
import GrammarKit.Proofs.Productive
import GrammarKit.Proofs.Reachable
import GrammarKit.Proofs.Recursion
import GrammarKit.Proofs.Registers
import GrammarKit.Proofs.Renaming.Analyses
import GrammarKit.Proofs.Renaming.Build
import GrammarKit.Proofs.Renaming.Findings
import GrammarKit.Proofs.Renaming.Names
import GrammarKit.Proofs.Renaming.Report
import GrammarKit.Proofs.Report.Exact
import GrammarKit.Proofs.Report.Findings
import GrammarKit.Proofs.Report.HandBuilt
import GrammarKit.Proofs.Report.Undefined
import GrammarKit.Proofs.Report.Useless
import GrammarKit.Proofs.Resolution.Changes
import GrammarKit.Proofs.Resolution.Lines
import GrammarKit.Proofs.Resolution.Order
import GrammarKit.Proofs.Rules
import GrammarKit.Proofs.Saturation
import GrammarKit.Proofs.SymbolNames
import GrammarKit.Proofs.SyntheticNames
import GrammarKit.Proofs.Tables
import GrammarKit.Random.Source
import GrammarKit.Random.Twister
import GrammarKit.Random.Weight
import GrammarKit.Register
import GrammarKit.Sentence.Choice
import GrammarKit.Sentence.Cost
import GrammarKit.Sentence.Extremes
import GrammarKit.Sentence.Generator
import GrammarKit.Sentence.Magnitude
import GrammarKit.Session.Analyses
import GrammarKit.Session.Basic
import GrammarKit.Session.Drafts
import GrammarKit.Session.Sentences
import GrammarKit.Session.Transcript
import GrammarKit.Settle
import GrammarKit.Slot
import GrammarKit.SortedSet
import GrammarKit.Symbol
import GrammarKit.Text.Layout
import GrammarKit.Text.Quoted
import GrammarKit.Tree.Arena
import GrammarKit.Tree.Derivation
import GrammarKit.Tree.Picture
import GrammarKit.Tree.Rose
