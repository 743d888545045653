import GrammarKit.Analysis.First

/-!
# FOLLOW sets

The FOLLOW set of a nonterminal holds the terminals that can come right behind it. Each occurrence
in a right-hand side is a flow into the set of the nonterminal: the FIRST set of what stands behind
the occurrence, and the FOLLOW set of the head as well when all of that is nullable. The end of the
input follows the start symbol.
-/

namespace GrammarKit

set_option autoImplicit false

/-- What an occurrence of the nonterminal `target` adds to its set. -/
structure Flow where
  target : Int
  tokens : IndexSet
  source : Option Int
deriving DecidableEq

/-- The nonterminals of a sequence, each with the symbols behind it. -/
def occurrences : List Symbol → List (Symbol × List Symbol)
  | [] => []
  | symbol :: rest =>
      if symbol.isNonterminal then (symbol, rest) :: occurrences rest else occurrences rest

structure FollowTable where
  entries : List IndexSet
deriving DecidableEq

namespace Flow

def isRouted (size : Nat) (flow : Flow) : Bool :=
  (slot? size flow.target).isSome && (flow.source.all fun source => (slot? size source).isSome)

def along (firsts : FirstTable) (production : Production) (occurrence : Symbol × List Symbol) :
    Except Fault Flow := do
  let behind ← firsts.ofSequence occurrence.2
  return {
    target := occurrence.1.index
    tokens := behind.tokens
    source := if behind.nullable then some production.lhs.index else none
  }

def ofGrammar (grammar : Grammar) (firsts : FirstTable) : Except Fault (List Flow) := do
  let flows ← grammar.productions.mapM fun production =>
    (occurrences production.rhs).mapM (along firsts production)
  return flows.flatten

end Flow

namespace FollowTable

def tokensOf (table : FollowTable) (index : Int) : IndexSet :=
  (item? table.entries index).getD ∅

def ofSymbol (table : FollowTable) (symbol : Symbol) : Except Fault IndexSet :=
  if symbol.isTerminal then throw (.followOfTerminal symbol.name)
  else require (item? table.entries symbol.index) .outsideTable

def absorb (table : FollowTable) (flow : Flow) : FollowTable :=
  let inherited := (flow.source.map table.tokensOf).getD ∅
  ⟨amend table.entries flow.target fun known => known ∪ (flow.tokens ∪ inherited)⟩

def pass (flows : List Flow) (table : FollowTable) : FollowTable := flows.foldl absorb table

/-- Nothing follows anything yet but the end of the input the start symbol. -/
def blank (grammar : Grammar) : FollowTable :=
  let nothing := grammar.nonterminals.map fun _ => (∅ : IndexSet)
  ⟨amend nothing grammar.start.index fun _ => SortedSet.singleton grammar.eof.index⟩

/-- Each pass but the last one adds to some set the end of the input or a token of some flow. -/
def passBound (grammar : Grammar) (flows : List Flow) : Nat :=
  let carried := flows.flatMap (·.tokens.toList)
  grammar.nonterminals.length * (carried.length + 1) + 1

def settled (grammar : Grammar) (flows : List Flow) : FollowTable × Nat :=
  settle (pass flows) (passBound grammar flows) (blank grammar)

/-- The table of a grammar over given FIRST sets, which may belong to another grammar. -/
def ofFirsts (grammar : Grammar) (firsts : FirstTable) : Noted FollowTable := do
  if (grammar.ruleSlot? grammar.start.index).isNone then
    Noted.fail .outsideTable
  let flows ← Flow.ofGrammar grammar firsts
  if flows.all (·.isRouted grammar.nonterminals.length) then
    let (table, passes) := settled grammar flows
    Noted.note (.followsConverged passes)
    return table
  else Noted.fail .outsideTable

def ofGrammar (grammar : Grammar) : Noted FollowTable := do
  let firsts ← FirstTable.ofGrammar grammar
  ofFirsts grammar firsts

end FollowTable

end GrammarKit
