import GrammarKit.Analysis.PrecedenceTable
import GrammarKit.Text.Layout

/-!
# Views of tables

The tables of the analyses keep indices. For a reader FIRST and FOLLOW sets are shown by names: as a
listing, as a frame with a column per terminal, or as text. Precedences are listed by token and by
production.
-/

namespace GrammarKit

set_option autoImplicit false

namespace Grammar

/-- The names of a set of terminals, in ascending order of their indices. -/
def namesOf (grammar : Grammar) (tokens : IndexSet) : Except Fault (List String) :=
  tokens.toList.mapM fun index => return (← grammar.terminal index).name

/-- A column per terminal, told by name. Of terminals that share a name the last one counts. -/
def membershipRecord (grammar : Grammar) (tokens : IndexSet) : Register String Bool :=
  Register.ofPairs (grammar.terminals.map fun terminal =>
    (terminal.name, decide (terminal.index ∈ tokens)))

end Grammar

def readColumns (columns : List String) (record : Register String Bool) : List Bool :=
  columns.map fun column => (record.find? column).getD false

def sortedNames (names : List String) : List String :=
  names.mergeSort fun left right => !decide (right < left)

namespace FirstTable

def listing (table : FirstTable) (grammar : Grammar) :
    Except Fault (List (String × List String × Bool)) :=
  grammar.nonterminals.mapM fun symbol => do
    let first ← table.ofSymbol symbol
    return (symbol.name, ← grammar.namesOf first.tokens, first.nullable)

/-- The last column shows nullability. It is entered last, so a terminal named like it shows the
same. -/
def frame (table : FirstTable) (grammar : Grammar) : Except Fault (Frame String Bool) := do
  let columns := grammar.terminals.map (·.name) ++ [emptySequence]
  let rows ← grammar.nonterminals.mapM fun symbol => do
    let first ← require (item? table.entries symbol.index) .outsideTable
    let record := (grammar.membershipRecord first.tokens).put emptySequence first.nullable
    return readColumns columns record
  return ⟨columns, grammar.nonterminals.map (·.name), rows⟩

def text (table : FirstTable) (grammar : Grammar) : Except Fault String := do
  let entries ← grammar.nonterminals.mapM fun symbol => do
    let first ← require (item? table.entries symbol.index) .outsideTable
    let names := sortedNames (← grammar.namesOf first.tokens)
    return (symbol.name, if first.nullable then names ++ [emptySequence] else names)
  return Text.layoutMap (Register.ofPairs entries)

end FirstTable

namespace FollowTable

def listing (table : FollowTable) (grammar : Grammar) :
    Except Fault (List (String × List String)) :=
  grammar.nonterminals.mapM fun symbol => do
    return (symbol.name, ← grammar.namesOf (← table.ofSymbol symbol))

def frame (table : FollowTable) (grammar : Grammar) : Except Fault (Frame String Bool) := do
  let columns := grammar.terminals.map (·.name)
  let rows ← grammar.nonterminals.mapM fun symbol => do
    let tokens ← require (item? table.entries symbol.index) .outsideTable
    return readColumns columns (grammar.membershipRecord tokens)
  return ⟨columns, grammar.nonterminals.map (·.name), rows⟩

def text (table : FollowTable) (grammar : Grammar) : Except Fault String := do
  let entries ← grammar.nonterminals.mapM fun symbol => do
    let tokens ← require (item? table.entries symbol.index) .outsideTable
    return (symbol.name, sortedNames (← grammar.namesOf tokens))
  return Text.layoutMap (Register.ofPairs entries)

end FollowTable

/-- All precedences, and the names by which productions make use of some. -/
structure PrecedenceListing where
  tokens : List (String × Option Precedence)
  productions : List (Int × Option Precedence)
  used : NameSet

namespace PrecedenceTable

def listing (table : PrecedenceTable) : Except Fault PrecedenceListing := do
  let tokens ← table.grammar.terminals.mapM fun terminal =>
    return (terminal.name, ← table.ofToken terminal)
  let productions ← table.grammar.productions.mapM fun production =>
    return (production.index, ← table.ofProduction production)
  return ⟨tokens, productions, ← table.usedPrecedences⟩

end PrecedenceTable

end GrammarKit
