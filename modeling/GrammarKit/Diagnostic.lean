import GrammarKit.Fault
import GrammarKit.Frame
import GrammarKit.Precedence
import GrammarKit.Slot

/-!
# Findings about a grammar

A diagnostic names its cause together with the symbols and productions involved. Kind, severity,
wording and the parts on show are functions of the cause. A report is a list of diagnostics; it is
data, and holding errors does not make it a failure.
-/

namespace GrammarKit

set_option autoImplicit false

inductive Severity where
  | error
  | warning
deriving DecidableEq, Repr

inductive DiagnosticKind where
  | unreachableNonterminal
  | unproductiveNonterminal
  | undefinedSymbol
  | unusedPrecedence
  | ambiguousNonassoc
  | emptyRule
  | unusedTerminal
  | unresolvedShiftReduce
  | reduceReduce
deriving DecidableEq, Repr

namespace Severity

def text : Severity → String
  | error => "error"
  | warning => "warning"

end Severity

namespace DiagnosticKind

def all : List DiagnosticKind :=
  [unreachableNonterminal, unproductiveNonterminal, undefinedSymbol, unusedPrecedence,
    ambiguousNonassoc, emptyRule, unusedTerminal, unresolvedShiftReduce, reduceReduce]

def text : DiagnosticKind → String
  | unreachableNonterminal => "unreachable nonterminal"
  | unproductiveNonterminal => "unproductive nonterminal"
  | undefinedSymbol => "undefined symbol"
  | unusedPrecedence => "unused precedence"
  | ambiguousNonassoc => "ambiguous nonassoc"
  | emptyRule => "empty rule"
  | unusedTerminal => "unused terminal"
  | unresolvedShiftReduce => "unresolved shift/reduce conflict"
  | reduceReduce => "reduce/reduce conflict"

end DiagnosticKind

inductive Diagnostic where
  | undefinedSymbol (symbol : Symbol) (production : Production)
  | emptyRule (symbol : Symbol)
  | unreachable (symbol start : Symbol)
  | unproductive (symbol : Symbol)
  | unusedTerminal (symbol : Symbol)
  | unusedPrecedence (name : String) (precedence : Precedence) (symbol : Symbol)
  | ambiguousNonassoc (production : Production) (token : Symbol)
  | unresolvedShiftReduce (production : Production) (token : Symbol)
  | reduceReduce (earliest latest : Production)
deriving DecidableEq

namespace Diagnostic

def kind : Diagnostic → DiagnosticKind
  | undefinedSymbol _ _ => .undefinedSymbol
  | emptyRule _ => .emptyRule
  | unreachable _ _ => .unreachableNonterminal
  | unproductive _ => .unproductiveNonterminal
  | unusedTerminal _ => .unusedTerminal
  | unusedPrecedence _ _ _ => .unusedPrecedence
  | ambiguousNonassoc _ _ => .ambiguousNonassoc
  | unresolvedShiftReduce _ _ => .unresolvedShiftReduce
  | reduceReduce _ _ => .reduceReduce

def severity : Diagnostic → Severity
  | undefinedSymbol _ _ => .error
  | emptyRule _ => .error
  | unreachable _ _ => .warning
  | unproductive _ => .error
  | unusedTerminal _ => .warning
  | unusedPrecedence _ _ _ => .warning
  | ambiguousNonassoc _ _ => .error
  | unresolvedShiftReduce _ _ => .warning
  | reduceReduce _ _ => .warning

def isError (diagnostic : Diagnostic) : Bool :=
  match diagnostic.severity with
  | .error => true
  | .warning => false

def message : Diagnostic → String
  | undefinedSymbol symbol production =>
      "'" ++ symbol.name ++ "' in '" ++ production.text ++ "' is not declared"
  | emptyRule symbol => "Rule '" ++ symbol.name ++ "' has no productions"
  | unreachable symbol start =>
      "Rule '" ++ symbol.name ++ "' is unreachable from '" ++ start.name ++ "'"
  | unproductive symbol =>
      "Rule '" ++ symbol.name ++ "' can never derive a finite string of tokens"
  | unusedTerminal symbol => "Token '" ++ symbol.name ++ "' is declared but never used"
  | unusedPrecedence name precedence _ =>
      "Precedence '" ++ precedence.text ++ "' of '" ++ name ++ "' is never used"
  | ambiguousNonassoc production token =>
      "'" ++ production.text ++ "' and '" ++ token.name
        ++ "' are non-associative at the same precedence level"
  | unresolvedShiftReduce production token =>
      "Shift/reduce conflict between '" ++ production.text ++ "' and '" ++ token.name
        ++ "' has no precedence to resolve it"
  | reduceReduce earliest latest =>
      "Reduce/reduce conflict between '" ++ earliest.text ++ "' and '" ++ latest.text
        ++ "', reducing by '" ++ earliest.text ++ "'"

def text (diagnostic : Diagnostic) : String :=
  diagnostic.severity.text ++ ": " ++ diagnostic.message

/-- The symbol that the finding is about. For a finding about a production it is the head. -/
def symbol : Diagnostic → Symbol
  | undefinedSymbol symbol _ => symbol
  | emptyRule symbol => symbol
  | unreachable symbol _ => symbol
  | unproductive symbol => symbol
  | unusedTerminal symbol => symbol
  | unusedPrecedence _ _ symbol => symbol
  | ambiguousNonassoc production _ => production.lhs
  | unresolvedShiftReduce production _ => production.lhs
  | reduceReduce earliest _ => earliest.lhs

def production? : Diagnostic → Option Production
  | undefinedSymbol _ production => some production
  | ambiguousNonassoc production _ => some production
  | unresolvedShiftReduce production _ => some production
  | reduceReduce earliest _ => some earliest
  | _ => none

def token? : Diagnostic → Option Symbol
  | ambiguousNonassoc _ token => some token
  | unresolvedShiftReduce _ token => some token
  | _ => none

end Diagnostic

structure Report where
  diagnostics : List Diagnostic
deriving DecidableEq

namespace Report

def errors (report : Report) : List Diagnostic := report.diagnostics.filter (·.isError)

def warnings (report : Report) : List Diagnostic := report.diagnostics.filter fun d => !d.isError

def hasErrors (report : Report) : Bool := report.diagnostics.any (·.isError)

def ofKind (report : Report) (kind : DiagnosticKind) : List Diagnostic :=
  report.diagnostics.filter fun diagnostic => diagnostic.kind = kind

/-- How often each kind occurs, for the kinds that occur at all. -/
def kindCounts (report : Report) : List (DiagnosticKind × Nat) :=
  (DiagnosticKind.all.map fun kind => (kind, (report.ofKind kind).length)).filter
    fun entry => 0 < entry.2

def diagnostic (report : Report) (index : Int) : Except Fault Diagnostic :=
  require (item? report.diagnostics index) .outsideGrammar

def text (report : Report) : String := "\n".intercalate (report.diagnostics.map (·.text))

def summary (report : Report) : String :=
  "ValidationReport(" ++ toString report.diagnostics.length ++ " diagnostics)"

def frame (report : Report) : Frame Nat (Option String) where
  columns := ["kind", "severity", "symbol", "production", "message"]
  index := List.range report.diagnostics.length
  rows := report.diagnostics.map fun diagnostic =>
    [some diagnostic.kind.text, some diagnostic.severity.text, some diagnostic.symbol.name,
      diagnostic.production?.map (·.text), some diagnostic.message]

end Report

end GrammarKit
