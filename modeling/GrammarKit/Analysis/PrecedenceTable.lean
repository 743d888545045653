import GrammarKit.Analysis.Follow
import GrammarKit.Diagnostic

/-!
# Precedence of tokens and productions

A token has the precedence of its declaration. A production takes the precedence of the token named
for it, or else of the last token of its right-hand side that has one. Where a parser could both
shift a token and reduce by a production, the tighter one of the two wins, and between equals the
associativity decides.
-/

namespace GrammarKit

set_option autoImplicit false

/-- Precedences by place of the terminals and the productions of `grammar`. -/
structure PrecedenceTable where
  grammar : Grammar
  tokens : List (Option Precedence)
  productions : List (Option Precedence)

inductive ParserAction where
  | shift
  | reduce
deriving DecidableEq, Repr

/-- The decision of a conflict. No action means that the input is in error. An unresolved conflict
may come with the action taken by default, and with the reason why it is unresolved. -/
structure Resolution where
  action : Option ParserAction
  production : Production
  diagnostic : Option Diagnostic
deriving DecidableEq

namespace Resolution

def isResolved (resolution : Resolution) : Bool := resolution.diagnostic.isNone

/-- One letter for a table of decisions: shift, reduce, undecided, or unresolved. -/
def letter (resolution : Resolution) : Char :=
  match resolution.action, resolution.isResolved with
  | none, _ => '-'
  | some _, false => 'u'
  | some .shift, true => 'S'
  | some .reduce, true => 'R'

end Resolution

namespace PrecedenceTable

/-- The first precedence among `symbols`, which are the symbols of a production from the right. -/
def nearest (tokens : List (Option Precedence)) : List Symbol → Except Fault (Option Precedence)
  | [] => return none
  | symbol :: rest =>
      if symbol.isTerminal then do
        match ← require (item? tokens symbol.index) .outsideTable with
        | some precedence => return some precedence
        | none => nearest tokens rest
      else nearest tokens rest

def select (grammar : Grammar) (tokens : List (Option Precedence)) (production : Production) :
    Except Fault (Option Precedence) :=
  match production.precedence with
  | some name => return grammar.precedences.find? name
  | none => nearest tokens production.rhs.reverse

def ofGrammar (grammar : Grammar) : Except Fault PrecedenceTable := do
  let tokens := grammar.terminals.map fun terminal => grammar.precedences.find? terminal.name
  let productions ← grammar.productions.mapM (select grammar tokens)
  return ⟨grammar, tokens, productions⟩

def ofToken (table : PrecedenceTable) (token : Symbol) : Except Fault (Option Precedence) :=
  require (item? table.tokens token.index) .outsideTable

def ofProduction (table : PrecedenceTable) (production : Production) :
    Except Fault (Option Precedence) :=
  require (item? table.productions production.index) .outsideTable

/-- Decides between reducing by a production and shifting a token, given both precedences. -/
def decide (production : Production) (token : Symbol) :
    Option Precedence → Option Precedence → Resolution
  | some ofProduction, some ofToken =>
      if ofProduction.level < ofToken.level then ⟨some .shift, production, none⟩
      else if ofToken.level < ofProduction.level then ⟨some .reduce, production, none⟩
      else
        match ofProduction.associativity with
        | .left => ⟨some .reduce, production, none⟩
        | .right => ⟨some .shift, production, none⟩
        | .nonassociative => ⟨none, production, some (.ambiguousNonassoc production token)⟩
  | _, _ => ⟨some .shift, production, some (.unresolvedShiftReduce production token)⟩

def resolveShiftReduce (table : PrecedenceTable) (production : Production) (token : Symbol) :
    Except Fault Resolution := do
  let ofProduction ← table.ofProduction production
  let ofToken ← table.ofToken token
  return decide production token ofProduction ofToken

/-- The earlier production wins, by number. -/
def resolveReduceReduce (first second : Production) : Resolution :=
  let (earliest, latest) := if second.index < first.index then (second, first) else (first, second)
  ⟨some .reduce, earliest, some (.reduceReduce earliest latest)⟩

def clashes (table : PrecedenceTable) (production : Production) (precedence : Precedence)
    (following : IndexSet) : Except Fault (List Diagnostic) := do
  let found ← following.toList.mapM fun index => do
    if (← require (item? table.tokens index) .outsideTable) = some precedence then
      return [Diagnostic.ambiguousNonassoc production (← table.grammar.terminal index)]
    else return []
  return found.flatten

/-- Where a production that ends in a nonterminal can be followed by a token of its own
non-associative level, as in `a < b < c`. -/
def ambiguitiesOf (table : PrecedenceTable) (follows : FollowTable) (production : Production) :
    Except Fault (List Diagnostic) := do
  match ← table.ofProduction production, production.rhs.getLast? with
  | some precedence, some final =>
      if precedence.associativity = .nonassociative ∧ final.isNonterminal then
        table.clashes production precedence (← follows.ofSymbol production.lhs)
      else return []
  | _, _ => return []

def ambiguities (table : PrecedenceTable) (follows : FollowTable) :
    Except Fault (List Diagnostic) := do
  let found ← table.grammar.productions.mapM (table.ambiguitiesOf follows)
  return found.flatten

/-- The names that lend a production their precedence, and the tokens with a precedence that occur
in a right-hand side. -/
def usedIn (table : PrecedenceTable) (production : Production) : Except Fault (List String) := do
  let tokens := production.rhs.filter (·.isTerminal)
  let used ← tokens.mapM fun token => do
    return if (← table.ofToken token).isSome then [token.name] else []
  return production.precedence.toList ++ used.flatten

def usedPrecedences (table : PrecedenceTable) : Except Fault NameSet := do
  let used ← table.grammar.productions.mapM table.usedIn
  return SortedSet.ofList used.flatten

end PrecedenceTable

end GrammarKit
