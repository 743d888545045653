/-!
# Symbols and productions

Terminals and nonterminals are numbered apart from each other. Nothing here ties a symbol to the
table of a grammar: whether a symbol is the entry that its index names is asked of a grammar.
-/

namespace GrammarKit

set_option autoImplicit false

inductive SymbolKind where
  | terminal
  | nonterminal
deriving DecidableEq, Repr

/-- Two symbols are equal when kind, index and name all agree. -/
structure Symbol where
  kind : SymbolKind
  index : Int
  name : String
deriving DecidableEq, Repr

namespace Symbol

def isTerminal (symbol : Symbol) : Bool :=
  match symbol.kind with
  | .terminal => true
  | .nonterminal => false

def isNonterminal (symbol : Symbol) : Bool := !symbol.isTerminal

end Symbol

/-- The name of the end of the input, which no declared token may bear. -/
def endOfInput : String := "$"

/-- How an empty right-hand side is shown. -/
def emptySequence : String := "ϵ"

/-- `precedence` is the token named to lend the production its precedence, if one is named. -/
structure Production where
  index : Int
  lhs : Symbol
  rhs : List Symbol
  precedence : Option String
deriving DecidableEq, Repr

namespace Production

def isEmpty (production : Production) : Bool := production.rhs.isEmpty

def text (production : Production) : String :=
  let body :=
    if production.isEmpty then emptySequence
    else " ".intercalate (production.rhs.map (·.name))
  production.lhs.name ++ " → " ++ body

end Production

end GrammarKit
