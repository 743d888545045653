import GrammarKit.Grammar.Basic
import GrammarKit.Settle
import GrammarKit.SortedSet

/-!
# The rule graph

An arc leads from the head of a production to each nonterminal of its right-hand side. The nodes
are indices as they are written, without regard to places: all indices of the nonterminals and
whatever else the productions mention.
-/

namespace GrammarKit

set_option autoImplicit false

structure RuleGraph where
  nodes : IndexSet
  arcs : List (Int × Int)

namespace RuleGraph

def successors (graph : RuleGraph) (node : Int) : IndexSet :=
  SortedSet.ofList ((graph.arcs.filter fun arc => arc.1 = node).map (·.2))

def spread (arcs : List (Int × Int)) (reached : IndexSet) : IndexSet :=
  arcs.foldl (fun known arc => if arc.1 ∈ known then known.insert arc.2 else known) reached

/-- The nodes reached from `origins` over any number of arcs. A pass goes through the arcs there and
back, so that a chain of rules takes one pass in whichever order it is written. Every pass but the
last one adds the end of an arc, so one pass more than there are arcs is enough. -/
def closure (graph : RuleGraph) (origins : IndexSet) : IndexSet :=
  let sweep := graph.arcs ++ graph.arcs.reverse
  (settle (spread sweep) (graph.arcs.length + 1) origins).1

def below (graph : RuleGraph) (node : Int) : IndexSet := graph.closure (graph.successors node)

def reachableFrom (graph : RuleGraph) (node : Int) : Except Fault IndexSet :=
  if node ∈ graph.nodes then return graph.closure (SortedSet.singleton node)
  else throw (.noSuchOrigin node)

/-- Whether `target` is reached from `origin` over at least one arc. An origin without successors
reaches nothing, be the target a node or not. -/
def hasPath (graph : RuleGraph) (origin target : Int) : Except Fault Bool :=
  if origin ∉ graph.nodes then throw (.noSuchOrigin origin)
  else if (graph.successors origin).toList.isEmpty then return false
  else if target ∉ graph.nodes then throw (.noSuchTarget target)
  else return decide (target ∈ graph.below origin)

def arcList (graph : RuleGraph) : List (Int × Int) :=
  graph.nodes.toList.flatMap fun node => (graph.successors node).toList.map fun next => (node, next)

section Layers

/-- The ends of the arcs from one layer that no arc from elsewhere keeps back, each where the last
arc leads to it. -/
def nextLayer (arcs : List (Int × Int)) (known layer : List Int) : List Int :=
  let reached := known ++ layer
  let ready (node : Int) : Bool := arcs.all fun arc => arc.2 ≠ node || reached.contains arc.1
  let successors (node : Int) : List Int :=
    ((arcs.filter fun arc => arc.1 = node).map (·.2)).eraseDups
  ((layer.flatMap successors).filter ready).reverse.eraseDups.reverse

def layersFrom (arcs : List (Int × Int)) : Nat → List Int → List Int → List Int
  | 0, known, _ => known
  | fuel + 1, known, layer =>
      if layer.isEmpty then known
      else layersFrom arcs fuel (known ++ layer) (nextLayer arcs known layer)

/-- The nodes reached from `origin`, each after all that have an arc to it. Nodes from which the
origin is equally far over the longest way stand together. A node below a recursion is left out. -/
def layers (graph : RuleGraph) (origin : Int) : List Int :=
  let reached := graph.closure (SortedSet.singleton origin)
  let arcs := graph.arcs.filter fun arc => decide (arc.1 ∈ reached)
  layersFrom arcs (reached.size + 1) [] [origin]

end Layers

section Endless

def dropEnd (left : IndexSet) (step : Int × IndexSet) : IndexSet :=
  if step.2.toList.any (fun next => decide (next ∈ left)) then left
  else left.filter fun node => decide (node ≠ step.1)

/-- The nodes from which the arcs lead on without end. From each of them an arc leads to another of
them or back to it, so they are what is left when all others are dropped. -/
def endless (graph : RuleGraph) : IndexSet :=
  let steps := graph.nodes.toList.map fun node => (node, graph.successors node)
  let sweep := steps ++ steps.reverse
  (settle (fun left => sweep.foldl dropEnd left) (graph.nodes.size + 1) graph.nodes).1

end Endless

end RuleGraph

namespace Production

def arcs (production : Production) : List (Int × Int) :=
  (production.rhs.filter (·.isNonterminal)).map fun symbol => (production.lhs.index, symbol.index)

end Production

namespace Grammar

def ruleGraph (grammar : Grammar) : RuleGraph :=
  let arcs := grammar.productions.flatMap (·.arcs)
  let mentioned := arcs.flatMap fun arc => [arc.1, arc.2]
  ⟨SortedSet.ofList (grammar.nonterminals.map (·.index) ++ mentioned), arcs⟩

/-- Whether `target` can occur in what `origin` derives in at least one step. Only the indices of
the two symbols count. -/
def hasPath (grammar : Grammar) (origin target : Symbol) : Except Fault Bool :=
  grammar.ruleGraph.hasPath origin.index target.index

def pathMatrix (grammar : Grammar) : List (List Bool) :=
  let graph := grammar.ruleGraph
  grammar.nonterminals.map fun origin =>
    let below := graph.below origin.index
    grammar.nonterminals.map fun target => decide (target.index ∈ below)

/-- The indices reached from the augmented start, its own included. -/
def reachable (grammar : Grammar) : Except Fault IndexSet :=
  grammar.ruleGraph.reachableFrom grammar.augmentedStart.index

end Grammar

end GrammarKit
