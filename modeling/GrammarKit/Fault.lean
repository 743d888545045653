import GrammarKit.Lexer.TokenReport
import GrammarKit.Symbol
import GrammarKit.Text.Quoted

/-!
# What can go wrong

Every failure is a value that names its cause. The wording is kept in one function per type, so no
other part of the library composes an error text.
-/

namespace GrammarKit

set_option autoImplicit false

/-- Why declarations make no grammar. -/
inductive DeclarationError where
  | noRules
  | duplicateRule (name : String)
  | conflictingStarts (first second : String) (others : List String)
  | undefinedStart (name : String)
  | reservedToken
  | tokenIsRule (name : String)
  | duplicatePrecedence (token : String)
  | unknownRule (user name : String)
  | unknownToken (user name : String)
  | noPrecedence (token : String)
  | unknownErrorText (token : String)
  | implicitTokensRefused
  | unknownImplicitToken (token : String)
deriving DecidableEq, Repr

inductive DeclarationErrorKind where
  | noStartRule
  | duplicateRule
  | conflictingStart
  | invalidStartRule
  | clashingName
  | duplicatePrecedence
  | unknownRuleReference
  | unknownToken
  | noPrecedenceForToken
  | unknownErrorText
  | invalidImplicitTokens
deriving DecidableEq, Repr

namespace DeclarationError

def kind : DeclarationError → DeclarationErrorKind
  | noRules => .noStartRule
  | duplicateRule _ => .duplicateRule
  | conflictingStarts _ _ _ => .conflictingStart
  | undefinedStart _ => .invalidStartRule
  | reservedToken => .clashingName
  | tokenIsRule _ => .clashingName
  | duplicatePrecedence _ => .duplicatePrecedence
  | unknownRule _ _ => .unknownRuleReference
  | unknownToken _ _ => .unknownToken
  | noPrecedence _ => .noPrecedenceForToken
  | unknownErrorText _ => .unknownErrorText
  | implicitTokensRefused => .invalidImplicitTokens
  | unknownImplicitToken _ => .invalidImplicitTokens

/-- The name at fault, where there is one. Of conflicting start rules it is the second. -/
def name? : DeclarationError → Option String
  | noRules => none
  | duplicateRule name => some name
  | conflictingStarts _ second _ => some second
  | undefinedStart name => some name
  | reservedToken => some endOfInput
  | tokenIsRule name => some name
  | duplicatePrecedence token => some token
  | unknownRule _ name => some name
  | unknownToken _ name => some name
  | noPrecedence token => some token
  | unknownErrorText token => some token
  | implicitTokensRefused => none
  | unknownImplicitToken token => some token

def message : DeclarationError → String
  | noRules => "Grammar has no rules"
  | duplicateRule name => "Rule '" ++ name ++ "' is defined more than once"
  | conflictingStarts first second others =>
      "Conflicting %start declarations: " ++ ", ".intercalate (first :: second :: others)
  | undefinedStart name => "Start rule '" ++ name ++ "' is not defined"
  | reservedToken => "'" ++ endOfInput ++ "' is reserved for the end of input"
  | tokenIsRule name => "'" ++ name ++ "' is both a token and a rule"
  | duplicatePrecedence token => "Precedence for '" ++ token ++ "' is declared more than once"
  | unknownRule user name => "Rule '" ++ user ++ "' references unknown rule '" ++ name ++ "'"
  | unknownToken user name =>
      "Rule '" ++ user ++ "' references undeclared token '" ++ name ++ "'"
  | noPrecedence token => "'%prec " ++ token ++ "' names a token with no declared precedence"
  | unknownErrorText token => "%epp given for undeclared token '" ++ token ++ "'"
  | implicitTokensRefused => "%implicit_tokens is only valid for Eco grammars"
  | unknownImplicitToken token => "Implicit token '" ++ token ++ "' is not declared"

end DeclarationError

/-- Why a request has no answer. -/
inductive Fault where
  /-- An index names no place in a table of an analysis. -/
  | outsideTable
  /-- An index names no symbol, production or rule of a grammar and no finding of a report. -/
  | outsideGrammar
  /-- An index names no rule declaration to remove. -/
  | outsideDeclarations
  | unknownKey (key : String)
  /-- A path is asked from an index that is no node of the rule graph. -/
  | noSuchOrigin (index : Int)
  /-- A path is asked to an index that is no node of the rule graph. -/
  | noSuchTarget (index : Int)
  | terminalGiven (name : String)
  | followOfTerminal (name : String)
  | strayReference (text : String)
  | negativeBudget (budget : Int)
  | negativeWeight
  | negativeTokenCost (token : String)
  | unboundedWeights
  | numberTooLarge
  | noDerivation (symbol : Symbol)
  | rejected (error : DeclarationError)
  | tokensOutOfStep (report : TokenReport) (gap : TokenGap)
deriving DecidableEq

namespace Fault

def message : Fault → String
  | outsideTable => "list index out of range"
  | outsideGrammar => "tuple index out of range"
  | outsideDeclarations => "list assignment index out of range"
  | unknownKey key => key
  | noSuchOrigin index => "no rule has the index " ++ toString index
  | noSuchTarget index => "no rule has the index " ++ toString index
  | terminalGiven name => "'" ++ name ++ "' is a terminal"
  | followOfTerminal name => "FOLLOW is only defined for nonterminals, not '" ++ name ++ "'"
  | strayReference text => "Unexpected symbol reference " ++ Text.quoted text
  | negativeBudget budget => "max_expansions must not be negative, got " ++ toString budget
  | negativeWeight => "Production weights must not be negative"
  | negativeTokenCost token => "Cost of token '" ++ token ++ "' must not be negative"
  | unboundedWeights => "Total of weights must be finite"
  | numberTooLarge => "int too large to convert to float"
  | noDerivation symbol => "'" ++ symbol.name ++ "' cannot derive a finite string of tokens"
  | rejected error => error.message
  | tokensOutOfStep report gap => report.rejection gap

end Fault

def require {α : Type} (found : Option α) (fault : Fault) : Except Fault α :=
  match found with
  | some value => .ok value
  | none => .error fault

@[simp]
theorem require_some {α : Type} (value : α) (fault : Fault) :
    require (some value) fault = .ok value := rfl

@[simp]
theorem require_none {α : Type} (fault : Fault) :
    require (none : Option α) fault = .error fault := rfl

end GrammarKit
