import GrammarKit.Grammar.Basic
import GrammarKit.Grammar.FreshName

/-!
# Grammars from declarations

Declarations are checked in a fixed order and the first violated rule is the answer: rules, start,
tokens, precedence lines, alternatives, error texts, implicit tokens. Accepted declarations become
a grammar whose symbols and productions are numbered from zero in order of declaration.

Implicit tokens add a nonterminal that derives every sequence of them. It stands behind each token
of an alternative and in front of the start symbol.
-/

namespace GrammarKit

set_option autoImplicit false

/-- The earliest name that stands a second time, given the names before the list. -/
def repeated? (seen : List String) : List String → Option String
  | [] => none
  | name :: rest => if name ∈ seen then some name else repeated? (name :: seen) rest

/-- The names in order of first occurrence. -/
def distinct (names : List String) : List String := names.eraseDups

def numberedSymbols (kind : SymbolKind) (names : List String) : List Symbol :=
  names.zipIdx.map fun (name, index) => ⟨kind, index, name⟩

/-- A production that has no number yet. -/
structure Clause where
  lhs : Symbol
  rhs : List Symbol
  precedence : Option String := none
deriving DecidableEq

def numberedProductions (clauses : List Clause) : List Production :=
  clauses.zipIdx.map fun (clause, index) => ⟨index, clause.lhs, clause.rhs, clause.precedence⟩

/-- What an alternative may mention. A token drags the implicit rule along, if there is one. -/
structure Scope where
  rules : List Symbol
  tokens : List Symbol
  implicitRule : Option Symbol
  precedences : Register String Precedence

namespace Scope

def rule? (scope : Scope) (name : String) : Option Symbol :=
  scope.rules.find? fun symbol => symbol.name = name

def token? (scope : Scope) (name : String) : Option Symbol :=
  scope.tokens.find? fun symbol => symbol.name = name

def resolve (scope : Scope) (user : String) : Reference → Except Fault (List Symbol)
  | .rule name => do
      let symbol ← require (scope.rule? name) (.rejected (.unknownRule user name))
      return [symbol]
  | .token name => do
      let symbol ← require (scope.token? name) (.rejected (.unknownToken user name))
      return symbol :: scope.implicitRule.toList
  | .stray text => throw (.strayReference text)

def checkPrecedence (scope : Scope) : Option String → Except Fault Unit
  | none => return ()
  | some token =>
      if scope.precedences.contains token then return () else throw (.rejected (.noPrecedence token))

def clause (scope : Scope) (lhs : Symbol) (alternative : Alternative) : Except Fault Clause := do
  let symbols ← alternative.references.mapM (scope.resolve lhs.name)
  scope.checkPrecedence alternative.precedence
  return ⟨lhs, symbols.flatten, alternative.precedence⟩

end Scope

namespace Declarations

def checkRules (declarations : Declarations) : Except Fault Unit :=
  if declarations.rules.isEmpty then throw (.rejected .noRules)
  else
    match repeated? [] declarations.ruleNames with
    | some name => throw (.rejected (.duplicateRule name))
    | none => return ()

def ruleSymbols (declarations : Declarations) : List Symbol :=
  numberedSymbols .nonterminal declarations.ruleNames

/-- The one declared start rule, or else the first rule. -/
def startSymbol (declarations : Declarations) : Except Fault Symbol :=
  match distinct declarations.starts with
  | [] => require declarations.ruleSymbols.head? (.rejected .noRules)
  | [name] =>
      require (declarations.ruleSymbols.find? fun symbol => symbol.name = name)
        (.rejected (.undefinedStart name))
  | first :: second :: others => throw (.rejected (.conflictingStarts first second others))

/-- Precedence lines declare their tokens as well. -/
def tokenNames (declarations : Declarations) : List String :=
  distinct (declarations.tokens ++ declarations.precedenceLines.flatMap (·.tokens))

def checkToken (declarations : Declarations) (name : String) : Except Fault Unit :=
  if name = endOfInput then throw (.rejected .reservedToken)
  else if name ∈ declarations.ruleNames then throw (.rejected (.tokenIsRule name))
  else return ()

/-- Each token of a precedence line with its precedence. Levels count from one. -/
def precedencePairs (declarations : Declarations) : List (String × Precedence) :=
  (declarations.precedenceLines.zipIdx 1).flatMap fun (line, level) =>
    line.tokens.map fun token => (token, ⟨level, line.associativity⟩)

def precedences (declarations : Declarations) : Except Fault (Register String Precedence) :=
  match repeated? [] (declarations.precedencePairs.map (·.1)) with
  | some token => throw (.rejected (.duplicatePrecedence token))
  | none => return Register.ofPairs declarations.precedencePairs

def hasImplicitRule (declarations : Declarations) (variant : Variant) : Bool :=
  match variant, declarations.implicitTokens with
  | .eco, some (_ :: _) => true
  | _, _ => false

def implicitRuleBase : String := "~"

def implicitRule? (declarations : Declarations) (variant : Variant) : Option Symbol :=
  if declarations.hasImplicitRule variant then
    some ⟨.nonterminal, declarations.rules.length,
      freshName (declarations.ruleNames ++ declarations.tokenNames) implicitRuleBase⟩
  else none

def augmentedStart (declarations : Declarations) (start : Symbol) (implicitRule : Option Symbol) :
    Symbol :=
  let others := implicitRule.toList.map (·.name)
  ⟨.nonterminal, (declarations.rules.length + others.length : Nat),
    freshName (declarations.ruleNames ++ declarations.tokenNames ++ others) (start.name ++ "'")⟩

def clauses (declarations : Declarations) (scope : Scope) : Except Fault (List Clause) :=
  let alternatives := (declarations.rules.zip declarations.ruleSymbols).flatMap
    fun (rule, lhs) => rule.alternatives.map fun alternative => (lhs, alternative)
  alternatives.mapM fun (lhs, alternative) => scope.clause lhs alternative

def numberedErrorTexts (declarations : Declarations) (scope : Scope) :
    Except Fault (Register Int String) := do
  let pairs ← declarations.errorTexts.entries.mapM fun (name, text) => do
    let token ← require (scope.token? name) (.rejected (.unknownErrorText name))
    return (token.index, text)
  return Register.ofPairs pairs

/-- The tokens to be derived by the implicit rule, once they are known to be declared. -/
def implicitTokenSymbols (declarations : Declarations) (variant : Variant) (scope : Scope) :
    Except Fault (List Symbol) :=
  match declarations.implicitTokens, variant with
  | none, _ => return []
  | some _, .plain => throw (.rejected .implicitTokensRefused)
  | some names, .eco => do
      let symbols ← names.mapM fun name =>
        require (scope.token? name) (.rejected (.unknownImplicitToken name))
      return symbols.eraseDups

/-- The implicit rule derives nothing, or one implicit token and then itself. -/
def implicitClauses (implicitRule : Option Symbol) (tokens : List Symbol) : List Clause :=
  match implicitRule with
  | none => []
  | some rule => tokens.map (fun token => ⟨rule, [token, rule], none⟩) ++ [⟨rule, [], none⟩]

def build (declarations : Declarations) (variant : Variant) : Except Fault Grammar := do
  declarations.checkRules
  let start ← declarations.startSymbol
  declarations.tokenNames.forM declarations.checkToken
  let precedences ← declarations.precedences
  let implicitRule := declarations.implicitRule? variant
  let augmented := declarations.augmentedStart start implicitRule
  let scope : Scope := {
    rules := declarations.ruleSymbols
    tokens := numberedSymbols .terminal declarations.tokenNames
    implicitRule := implicitRule
    precedences := precedences
  }
  let clauses ← declarations.clauses scope
  let errorTexts ← declarations.numberedErrorTexts scope
  let implicitTokens ← declarations.implicitTokenSymbols variant scope
  let leading := numberedProductions (clauses ++ implicitClauses implicitRule implicitTokens)
  let eof : Symbol := ⟨.terminal, scope.tokens.length, endOfInput⟩
  return {
    variant := variant
    tokens := scope.tokens
    eof := eof
    nonterminals := scope.rules ++ implicitRule.toList ++ [augmented]
    leading := leading
    startProduction := ⟨leading.length, augmented, implicitRule.toList ++ [start, eof], none⟩
    start := start
    implicitRule := implicitRule
    precedences := precedences
    errorTexts := errorTexts
  }

end Declarations

end GrammarKit
