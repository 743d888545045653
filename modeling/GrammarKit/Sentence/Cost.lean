import GrammarKit.Grammar.Basic
import GrammarKit.Settle

/-!
# Cheapest derivations

The cost of a derivation is the cost of its tokens together with the number of productions applied,
compared in this order. A table holds the least cost for each nonterminal, and nothing for a
nonterminal that derives no finite sequence.

A cheapest derivation repeats no nonterminal below itself: cutting out the part in between would
cost no more tokens and fewer productions. So it is at most as high as there are nonterminals, and
each pass over the productions completes the derivations that are one step higher.
-/

namespace GrammarKit

set_option autoImplicit false

structure Cost where
  tokens : Int
  expansions : Nat
deriving DecidableEq, Repr

namespace Cost

def zero : Cost := ⟨0, 0⟩

def add (left right : Cost) : Cost :=
  ⟨left.tokens + right.tokens, left.expansions + right.expansions⟩

/-- Fewer token costs come first, then fewer expansions. -/
def before (left right : Cost) : Bool :=
  left.tokens < right.tokens || (left.tokens = right.tokens && left.expansions < right.expansions)

/-- What cannot be derived costs more than anything else. -/
def improves : Option Cost → Option Cost → Bool
  | some new, some old => new.before old
  | some _, none => true
  | none, _ => false

def sum (left right : Option Cost) : Option Cost := do
  return (← left).add (← right)

end Cost

/-- Costs of tokens by number, costs of the remaining ones by name, and one cost for all others. -/
structure TokenCosts where
  numbered : Register Int Int := ∅
  listed : Register String Int := ∅
  other : Int := 1

namespace TokenCosts

def of (costs : TokenCosts) (token : Symbol) : Int :=
  ((costs.numbered.find? token.index).or (costs.listed.find? token.name)).getD costs.other

/-- Every token for nothing, so that expansions alone are counted. -/
def free : TokenCosts := { other := 0 }

def checkTerminals (costs : TokenCosts) (grammar : Grammar) : Except Fault Unit :=
  match grammar.terminals.find? fun terminal => costs.of terminal < 0 with
  | some terminal => throw (.negativeTokenCost terminal.name)
  | none => return ()

end TokenCosts

structure CostTable where
  entries : List (Option Cost)
deriving DecidableEq

namespace CostTable

def costAt (table : CostTable) (index : Int) : Option Cost :=
  (item? table.entries index).join

def ofSymbol (table : CostTable) (costs : TokenCosts) (symbol : Symbol) : Option Cost :=
  if symbol.isTerminal then some ⟨costs.of symbol, 0⟩ else table.costAt symbol.index

def ofSequence (table : CostTable) (costs : TokenCosts) (symbols : List Symbol) : Option Cost :=
  symbols.foldr (fun symbol rest => Cost.sum (table.ofSymbol costs symbol) rest) (some Cost.zero)

def ofProduction (table : CostTable) (costs : TokenCosts) (production : Production) :
    Option Cost :=
  Cost.sum (some ⟨0, 1⟩) (table.ofSequence costs production.rhs)

def learn (costs : TokenCosts) (table : CostTable) (production : Production) : CostTable :=
  let found := table.ofProduction costs production
  ⟨amend table.entries production.lhs.index fun known =>
    if Cost.improves found known then found else known⟩

def pass (costs : TokenCosts) (productions : List Production) (table : CostTable) : CostTable :=
  productions.foldl (learn costs) table

def blank (grammar : Grammar) : CostTable := ⟨grammar.nonterminals.map fun _ => none⟩

def settled (grammar : Grammar) (costs : TokenCosts) : CostTable × Nat :=
  settle (pass costs grammar.productions) (grammar.nonterminals.length + 1) (blank grammar)

def ofGrammar (grammar : Grammar) (costs : TokenCosts) : CostTable := (settled grammar costs).1

end CostTable

namespace Grammar

/-- The fewest productions that derive a finite sequence from each nonterminal.

A loop of its own that counts expansions would go through the same productions in the same order,
and give the head of each one more than the counts of the nonterminals behind it if that is less
than before. The sweeps for costs do just this when every token is free: all token costs are zero
then, so that pairs compare by their expansions, and unknown entries are unknown in both. Hence the
counts are the second halves of the pairs, entry by entry and sweep by sweep. -/
def expansions (grammar : Grammar) : List (Option Nat) :=
  (CostTable.ofGrammar grammar .free).entries.map fun cost => cost.map (·.expansions)

end Grammar

end GrammarKit
