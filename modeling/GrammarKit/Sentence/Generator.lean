import GrammarKit.Analysis.First
import GrammarKit.Analysis.Productive
import GrammarKit.Random.Source
import GrammarKit.Sentence.Choice
import GrammarKit.Sentence.Magnitude
import GrammarKit.Tree.Derivation

/-!
# Random sentences

A generator derives trees from the root down and from left to right, within a budget of productions
per tree. While it expands a node it keeps in reserve the fewest expansions that the nodes still
waiting need. Of the productions that fit into what is left one is picked. When none fits, the one
with the fewest expansions is forced and the picker is not asked. So a tree takes no more expansions
than the budget, or than the nonterminal needs at least.
-/

namespace GrammarKit

set_option autoImplicit false

structure GeneratorOptions where
  maxExpansions : Int := 100
  weights : Register Int Weight := ∅
  seed : Option Int := none
  tokenCosts : TokenCosts := {}

structure Generator where
  grammar : Grammar
  firsts : FirstTable
  maxExpansions : Nat
  weights : Register Int Weight
  seed : Option Int
  tokenCosts : TokenCosts
  productive : IndexSet
  expansions : List (Option Nat)
  costs : CostTable

/-- A request to the picker: the numbers of the candidates, and their weights if any were sent. -/
structure Draw where
  candidates : List Int
  weights : Option (List Weight)

/-- What changes while a tree grows. The latest draw comes first. -/
structure Progress (σ : Type) where
  remaining : Int
  reserved : Int
  source : σ
  draws : List Draw

/-- Growing a tree keeps what it has used up, also when it fails. -/
abbrev Growth (σ : Type) := ExceptT Fault (StateM (Progress σ))

namespace Generator

/-- Tables are made only after the budget and the weights are found to be in order. -/
def ofGrammar (grammar : Grammar) (options : GeneratorOptions) (firsts : Option FirstTable) :
    Noted Generator := do
  if options.maxExpansions < 0 then
    Noted.fail (.negativeBudget options.maxExpansions)
  if options.weights.entries.any fun entry => entry.2.isNegative then
    Noted.fail .negativeWeight
  let firsts ←
    match firsts with
    | some table => pure table
    | none => FirstTable.ofGrammar grammar
  grammar.checkExpansions
  options.tokenCosts.checkTerminals grammar
  grammar.checkCosts options.tokenCosts
  return {
    grammar := grammar
    firsts := firsts
    maxExpansions := options.maxExpansions.toNat
    weights := options.weights
    seed := options.seed
    tokenCosts := options.tokenCosts
    productive := grammar.productive
    expansions := grammar.expansions
    costs := CostTable.ofGrammar grammar options.tokenCosts
  }

def expansionsOf (generator : Generator) (index : Int) : Option Nat :=
  (item? generator.expansions index).join

/-- The expansions that a symbol needs at least. -/
def need (generator : Generator) (symbol : Symbol) : Option Nat :=
  if symbol.isTerminal then some 0 else generator.expansionsOf symbol.index

/-- The expansions that the right-hand side of a production needs at least. -/
def pending (generator : Generator) (production : Production) : Option Nat :=
  production.rhs.foldr (fun symbol rest => do return (← generator.need symbol) + (← rest)) (some 0)

def productionsOf (generator : Generator) (symbol : Symbol) : List Production :=
  match generator.grammar.ruleSlot? symbol.index with
  | some place => generator.grammar.productionsAt place
  | none => []

/-- The productions of a nonterminal that derive a finite sequence. -/
def alternatives (generator : Generator) (symbol : Symbol) : List Production :=
  (generator.productionsOf symbol).filter fun production =>
    production.isProductive generator.productive

def fits (generator : Generator) (allowance : Int) (production : Production) : Bool :=
  match generator.pending production with
  | some pending => decide ((pending : Int) + 1 ≤ allowance)
  | none => false

def fewer (generator : Generator) (left right : Production) : Bool :=
  match generator.pending left, generator.pending right with
  | some here, some there => here < there || (here = there && left.index < right.index)
  | some _, none => true
  | none, some _ => false
  | none, none => left.index < right.index

def weightOf (generator : Generator) (production : Production) : Weight :=
  (generator.weights.find? production.index).getD Weight.standard

/-- The weights to send along, if weights were given and some candidate weighs anything. -/
def weightsFor (generator : Generator) (candidates : List Production) :
    Except Fault (Option (List Weight)) := do
  if generator.weights.isEmpty then return none
  let weights := candidates.map generator.weightOf
  let total ← require (Weight.total? weights) .numberTooLarge
  return if total.isPositive then some weights else none

def check (generator : Generator) (symbol : Symbol) : Except Fault Unit :=
  if symbol.isTerminal then throw (.terminalGiven symbol.name)
  else if symbol.index ∉ generator.productive then throw (.noDerivation symbol)
  else return ()

section Growing

variable {σ : Type}

def draw (generator : Generator) (picker : Picker σ) (candidates : List Production)
    (nonempty : 0 < candidates.length) : Growth σ Production := do
  let weights ← generator.weightsFor candidates
  let progress ← get
  let (choice, source) := picker.pick candidates.length nonempty weights progress.source
  let draw : Draw := ⟨candidates.map (·.index), weights⟩
  set { progress with source := source, draws := draw :: progress.draws }
  let place ← choice
  return candidates[place]

def choose (generator : Generator) (picker : Picker σ) (symbol : Symbol) (allowance : Int) :
    Growth σ Production :=
  let alternatives := generator.alternatives symbol
  let candidates := alternatives.filter (generator.fits allowance)
  if nonempty : 0 < candidates.length then generator.draw picker candidates nonempty
  else
    match best? generator.fewer alternatives with
    | some forced => return forced
    | none => throw (.noDerivation symbol)

/-- Picks a production for a nonterminal and settles the accounts. -/
def expand (generator : Generator) (picker : Picker σ) (symbol : Symbol) :
    Growth σ Production := do
  modify fun progress =>
    { progress with reserved := progress.reserved - ((generator.need symbol).getD 0 : Nat) }
  let progress ← get
  let production ← generator.choose picker symbol (progress.remaining - progress.reserved)
  modify fun progress =>
    { progress with
      remaining := progress.remaining - 1
      reserved := progress.reserved + ((generator.pending production).getD 0 : Nat) }
  return production

/-- Grows the tree of a symbol, at most `height` expansions deep. -/
def grow (generator : Generator) (picker : Picker σ) : Nat → Symbol → Growth σ DerivationTree
  | 0, symbol =>
      if symbol.isTerminal then return DerivationTree.leaf symbol else throw (.noDerivation symbol)
  | height + 1, symbol => do
      if symbol.isTerminal then return DerivationTree.leaf symbol
      let production ← generator.expand picker symbol
      let children ← production.rhs.mapM (generator.grow picker height)
      return .node ⟨symbol, some production⟩ children

/-- No tree is higher than this. What is left of the budget once the waiting nodes have their
reserve never grows. While it lasts no path is longer than the budget, and after that every
production is forced, so that no path comes to one place twice. -/
def heightBound (generator : Generator) (symbol : Symbol) : Nat :=
  max generator.maxExpansions ((generator.need symbol).getD 0)
    + generator.grammar.nonterminals.length

def start (generator : Generator) (symbol : Symbol) (source : σ) : Progress σ where
  remaining := generator.maxExpansions
  reserved := ((generator.need symbol).getD 0 : Nat)
  source := source
  draws := []

/-- A random tree of a nonterminal, with the source and the draws it took. -/
def tree (generator : Generator) (picker : Picker σ) (symbol : Symbol) (source : σ) :
    Except Fault DerivationTree × Progress σ :=
  match generator.check symbol with
  | .error fault => (.error fault, generator.start symbol source)
  | .ok () =>
      (generator.grow picker (generator.heightBound symbol) symbol).run
        (generator.start symbol source)

def trees (generator : Generator) (picker : Picker σ) (symbol : Symbol) :
    Nat → σ → Except Fault (List DerivationTree)
  | 0, _ => return []
  | count + 1, source => do
      let (outcome, progress) := generator.tree picker symbol source
      let first ← outcome
      let rest ← generator.trees picker symbol count progress.source
      return first :: rest

end Growing

/-- The source that every call starts from when it is given none. -/
def ownSource (generator : Generator) : Source :=
  .random (Twister.ofSeed (generator.seed.getD 0))

def ownTree (generator : Generator) (symbol : Symbol) : Except Fault DerivationTree :=
  (generator.tree Source.picker symbol generator.ownSource).1

/-- The first `take` sentences of a stream of `count` sentences, which is endless without a count.
The symbol is looked at when the first sentence is asked for, even if there is none. -/
def sentences (generator : Generator) (symbol : Symbol) (count : Option Int) (take : Nat) :
    Except Fault (List (List Symbol)) := do
  if take = 0 then return []
  generator.check symbol
  let wanted := match count with
    | some count => min count.toNat take
    | none => take
  let trees ← generator.trees Source.picker symbol wanted generator.ownSource
  return trees.map (·.leaves)

end Generator

end GrammarKit
