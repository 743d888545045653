import GrammarKit.Grammar.Basic
import GrammarKit.Journal
import GrammarKit.Settle

/-!
# FIRST sets

The FIRST set of a symbol sequence holds the terminals that can begin what the sequence derives; a
sequence that derives nothing at all is nullable. A terminal is never nullable and begins with
itself, so a table keeps entries for nonterminals only.

Sequences are scanned from the left up to the first symbol that is not nullable. What stands
behind that symbol is not looked at, be it known to the table or not.
-/

namespace GrammarKit

set_option autoImplicit false

/-- The terminals that can come first, by index, and whether nothing can come at all. -/
structure First where
  tokens : IndexSet
  nullable : Bool
deriving DecidableEq

namespace First

def impossible : First := ⟨∅, false⟩

def empty : First := ⟨∅, true⟩

def ofTerminal (index : Int) : First := ⟨SortedSet.singleton index, false⟩

def either (left right : First) : First :=
  ⟨left.tokens ∪ right.tokens, left.nullable || right.nullable⟩

end First

structure FirstTable where
  entries : List First
deriving DecidableEq

namespace FirstTable

def ofSymbol (table : FirstTable) (symbol : Symbol) : Except Fault First :=
  if symbol.isTerminal then return First.ofTerminal symbol.index
  else require (item? table.entries symbol.index) .outsideTable

def ofSequence (table : FirstTable) : List Symbol → Except Fault First
  | [] => return First.empty
  | symbol :: rest => do
      let head ← table.ofSymbol symbol
      if head.nullable then
        let tail ← table.ofSequence rest
        return ⟨head.tokens ∪ tail.tokens, tail.nullable⟩
      else return head

def isNullable (table : FirstTable) (symbol : Symbol) : Except Fault Bool :=
  if symbol.isTerminal then return false
  else return (← table.ofSymbol symbol).nullable

/-- Adds what the right-hand side of a production yields to the entry of its head.

While the sets grow, a right-hand side is scanned just as any sequence is once they are settled. A
loop of its own would tell terminals from nonterminals first: a terminal is added and ends the scan,
and of a nonterminal the set is added and the scan ends unless it is nullable. `ofSequence` does the
same, because a terminal begins with itself and is never nullable. The entries are read before that
of the head is amended, also where the head occurs in its own right-hand side. -/
def learn (table : FirstTable) (production : Production) : FirstTable :=
  match table.ofSequence production.rhs with
  | .ok found => ⟨amend table.entries production.lhs.index (·.either found)⟩
  | .error _ => table

def pass (productions : List Production) (table : FirstTable) : FirstTable :=
  productions.foldl learn table

def blank (grammar : Grammar) : FirstTable :=
  ⟨grammar.nonterminals.map fun _ => First.impossible⟩

/-- Each pass but the last one makes an entry nullable or adds one of the terminals of the
right-hand sides to it. -/
def passBound (grammar : Grammar) : Nat :=
  let occurrences := grammar.productions.flatMap (·.rhs)
  grammar.nonterminals.length * (occurrences.length + 1) + 1

def settled (grammar : Grammar) : FirstTable × Nat :=
  settle (pass grammar.productions) (passBound grammar) (blank grammar)

/-- The table of a grammar. A production whose scan comes across an unknown nonterminal adds
nothing while the sets grow. It comes across it in the end as well, since scans only get longer,
and then there is no table. -/
def ofGrammar (grammar : Grammar) : Noted FirstTable := do
  let (table, passes) := settled grammar
  grammar.productions.forM fun production => do
    let _ ← table.ofSequence production.rhs
  Noted.note (.firstsConverged passes)
  return table

end FirstTable

end GrammarKit
