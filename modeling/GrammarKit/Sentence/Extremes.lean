import GrammarKit.Grammar.RuleGraph
import GrammarKit.Sentence.Generator

/-!
# Cheapest and dearest sentences

The cheapest sentence of a nonterminal follows the cheapest production at every node. The dearest
sentence exists when no recursion is left among the productive productions below the nonterminal.
-/

namespace GrammarKit

set_option autoImplicit false

namespace Generator

def cheaper (generator : Generator) (left right : Production) : Bool :=
  let here := generator.costs.ofProduction generator.tokenCosts left
  let there := generator.costs.ofProduction generator.tokenCosts right
  Cost.improves here there || (!Cost.improves there here && decide (left.index < right.index))

def cheapestProduction? (generator : Generator) (symbol : Symbol) : Option Production :=
  best? generator.cheaper (generator.productionsOf symbol)

/-- The tokens of the cheapest derivation, as far as it is at most `height` expansions deep. -/
def cheapestTokens (generator : Generator) : Nat → Symbol → List Symbol
  | 0, symbol => if symbol.isTerminal then [symbol] else []
  | height + 1, symbol =>
      if symbol.isTerminal then [symbol]
      else
        match generator.cheapestProduction? symbol with
        | some production => production.rhs.flatMap (generator.cheapestTokens height)
        | none => []

/-- One cheapest sentence. A nullable nonterminal has the empty one. -/
def minSentence (generator : Generator) (symbol : Symbol) : Except Fault (List Symbol) := do
  generator.check symbol
  if ← generator.firsts.isNullable symbol then return []
  return generator.cheapestTokens generator.grammar.nonterminals.length symbol

def minSentenceCost (generator : Generator) (symbol : Symbol) : Except Fault Int := do
  generator.check symbol
  if ← generator.firsts.isNullable symbol then return 0
  let cost ← require (generator.costs.costAt symbol.index) (.noDerivation symbol)
  return cost.tokens

def usefulProductions (generator : Generator) : List Production :=
  generator.grammar.productions.filter fun production =>
    decide (production.lhs.index ∈ generator.productive)
      && production.isProductive generator.productive

def usefulGraph (generator : Generator) : RuleGraph :=
  ⟨generator.productive, generator.usefulProductions.flatMap (·.arcs)⟩

def dearestOf (generator : Generator) (table : List Int) (symbol : Symbol) : Int :=
  if symbol.isTerminal then generator.tokenCosts.of symbol
  else (item? table symbol.index).getD 0

def learnDearest (generator : Generator) (table : List Int) (production : Production) : List Int :=
  let cost := production.rhs.foldr (fun symbol rest => generator.dearestOf table symbol + rest) 0
  amend table production.lhs.index fun known => max known cost

/-- The productions grouped under a place that some index of the set names. -/
def alternativesWithin (generator : Generator) (indices : IndexSet) : List Production :=
  let places := indices.toList.map generator.grammar.ruleSlot?
  generator.grammar.productions.filter fun production =>
    places.contains (generator.grammar.ruleSlot? production.lhs.index)
      && production.isProductive generator.productive

/-- The dearest cost of each nonterminal among `bounded`, from which there must be no way to a
recursion. Each pass completes the derivations that are one step higher, and goes through the
productions there and back, so that a chain of rules takes one pass in whichever order it is
written. -/
def dearestTable (generator : Generator) (bounded : IndexSet) : List Int :=
  let productions := generator.alternativesWithin bounded
  let pass := fun table => (productions ++ productions.reverse).foldl generator.learnDearest table
  let size := generator.grammar.nonterminals.length
  (settle pass (size + 1) (List.replicate size 0)).1

/-- Which productive nonterminals have sentences of unbounded cost, and the dearest cost of the
others. Any recursion below a nonterminal counts as unbounded. -/
structure Outlook where
  unbounded : IndexSet
  dearest : List Int

def outlook (generator : Generator) : Outlook :=
  let graph := generator.usefulGraph
  let unbounded := graph.endless
  ⟨unbounded, generator.dearestTable (graph.nodes.without unbounded)⟩

section Aliases

/-- Whether every head is written by the index of its place counted from the front. Then no two
heads name one place by different indices. -/
def headsArePlain (generator : Generator) : Bool :=
  generator.grammar.productions.all fun production => decide (0 ≤ production.lhs.index)

/-- The nonterminals that the dearest sentence asks for at the place of `index` without an arc from
`index`: those in productions whose head names the place by another index. -/
def borrowed (generator : Generator) (index : Int) : List Int :=
  let productions := (generator.alternativesWithin (SortedSet.singleton index)).filter
    fun production => production.lhs.index ≠ index
  productions.flatMap fun production =>
    (production.rhs.filter (·.isNonterminal)).map (·.index)

/-- Costs become known from the end of the list on. The first index that is asked for before its
own cost is known, if there is one. -/
def unknownAhead? (generator : Generator) : List Int → Option Int
  | [] => none
  | index :: later =>
      (generator.unknownAhead? later).or
        ((generator.borrowed index).find? fun wanted => !later.contains wanted)

end Aliases

/-- The dearest cost by an outlook of the generator, which may serve several nonterminals. -/
def maxSentenceCostBy (generator : Generator) (outlook : Outlook) (symbol : Symbol) :
    Noted (Option Int) := do
  generator.check symbol
  if symbol.index ∈ outlook.unbounded then
    Noted.note (.unboundedSentences symbol.name)
    return none
  else
    let unknown? :=
      if generator.headsArePlain then none
      else generator.unknownAhead? (generator.usefulGraph.layers symbol.index)
    match unknown? with
    | some wanted => Noted.fail (.unknownKey (toString wanted))
    | none => return some (generator.dearestOf outlook.dearest symbol)

/-- The cost of the dearest sentence, or nothing when sentences are unbounded. Where heads name one
place by several indices, a cost may be asked for too early, which is a fault. -/
def maxSentenceCost (generator : Generator) (symbol : Symbol) : Noted (Option Int) :=
  generator.maxSentenceCostBy generator.outlook symbol

end Generator

end GrammarKit
