import GrammarKit.Grammar.Basic
import GrammarKit.Settle

/-!
# Productive nonterminals

A nonterminal is productive when it derives some finite sequence of terminals. The set grows from
nothing by the heads of the productions whose nonterminals are all in it. Members are indices as
the productions write them.
-/

namespace GrammarKit

set_option autoImplicit false

namespace Production

def isProductive (production : Production) (productive : IndexSet) : Bool :=
  production.rhs.all fun symbol => symbol.isTerminal || decide (symbol.index ∈ productive)

end Production

namespace Productive

def learn (productive : IndexSet) (production : Production) : IndexSet :=
  if production.isProductive productive then productive.insert production.lhs.index else productive

def pass (productions : List Production) (productive : IndexSet) : IndexSet :=
  productions.foldl learn productive

/-- Each pass but the last one adds the head of a production. -/
def settled (grammar : Grammar) : IndexSet × Nat :=
  settle (pass grammar.productions) (grammar.productions.length + 1) ∅

end Productive

namespace Grammar

def productive (grammar : Grammar) : IndexSet := (Productive.settled grammar).1

end Grammar

end GrammarKit
