import GrammarKit.Analysis.PrecedenceTable
import GrammarKit.Analysis.Productive
import GrammarKit.Grammar.RuleGraph

/-!
# Validation

Each check collects findings of one kind. A validation runs the checks in a fixed order and reports
all findings together. A symbol that is not the entry of its table makes the checks meaningless
that go by index, so in a grammar with such symbols only those run that go by name.
-/

namespace GrammarKit

set_option autoImplicit false

/-- Tables made beforehand, which a validation then uses in place of its own. They may belong to
other grammars. -/
structure PreparedTables where
  firsts : Option FirstTable := none
  follows : Option FollowTable := none
  precedences : Option PrecedenceTable := none

namespace PreparedTables

def precedencesFor (prepared : PreparedTables) (grammar : Grammar) :
    Except Fault PrecedenceTable :=
  match prepared.precedences with
  | some table => return table
  | none => PrecedenceTable.ofGrammar grammar

def firstsFor (prepared : PreparedTables) (grammar : Grammar) : Noted FirstTable :=
  match prepared.firsts with
  | some table => pure table
  | none => FirstTable.ofGrammar grammar

/-- FIRST sets are made only when there are no FOLLOW sets to make do with. -/
def followsFor (prepared : PreparedTables) (grammar : Grammar) : Noted FollowTable :=
  match prepared.follows with
  | some table => pure table
  | none => do
      let firsts ← prepared.firstsFor grammar
      FollowTable.ofFirsts grammar firsts

end PreparedTables

namespace Grammar

/-- Whether a symbol is the entry of its table at its own index. Negative indices are no places
here. -/
def defines (grammar : Grammar) (symbol : Symbol) : Bool :=
  let table := if symbol.isTerminal then grammar.terminals else grammar.nonterminals
  decide (0 ≤ symbol.index ∧ table[symbol.index.toNat]? = some symbol)

def undefinedSymbols (grammar : Grammar) : List Diagnostic :=
  grammar.productions.flatMap fun production =>
    ((production.lhs :: production.rhs).filter fun symbol => !grammar.defines symbol).map
      fun symbol => .undefinedSymbol symbol production

def emptyRules (grammar : Grammar) : List Diagnostic :=
  (grammar.rules.filter (·.isEmpty)).map fun rule => .emptyRule rule.lhs

def unreachableNonterminals (grammar : Grammar) : Except Fault (List Diagnostic) := do
  let reachable ← grammar.reachable
  let unreached := grammar.nonterminals.filter fun symbol => symbol.index ∉ reachable
  return unreached.map fun symbol => .unreachable symbol grammar.start

/-- The nonterminals with productions that derive no finite sequence. A nonterminal without
productions is left to the check for empty rules. -/
def unproductiveNonterminals (grammar : Grammar) : Except Fault (List Diagnostic) := do
  let productive := grammar.productive
  let unproductive := grammar.nonterminals.filter fun symbol => symbol.index ∉ productive
  let found ← unproductive.mapM fun symbol => do
    return if (← grammar.ruleOf symbol).isEmpty then [] else [Diagnostic.unproductive symbol]
  return found.flatten

/-- The names used by right-hand sides or named to lend a precedence. -/
def usedNames (grammar : Grammar) : NameSet :=
  grammar.referencedTokenNames.insertAll (grammar.productions.filterMap (·.precedence))

def unusedTerminals (grammar : Grammar) : List Diagnostic :=
  let used := grammar.usedNames
  (grammar.properTerminals.filter fun terminal => terminal.name ∉ used).map .unusedTerminal

/-- The declared precedences that no production makes use of, by the given table. -/
def unusedPrecedences (grammar : Grammar) (table : PrecedenceTable) :
    Except Fault (List Diagnostic) := do
  let used ← table.usedPrecedences
  let unused := grammar.precedences.entries.filter fun entry => entry.1 ∉ used
  unused.mapM fun (name, precedence) => do
    return .unusedPrecedence name precedence (← grammar.symbol name)

end Grammar

/-- One of the checks of a validation. -/
inductive Check where
  | undefinedSymbols
  | emptyRules
  | unreachableNonterminals
  | unproductiveNonterminals
  | unusedTerminals
  | unusedPrecedences
  | ambiguousNonassoc
deriving DecidableEq, Repr

namespace Check

def run (prepared : PreparedTables) (grammar : Grammar) : Check → Noted (List Diagnostic)
  | undefinedSymbols => pure grammar.undefinedSymbols
  | emptyRules => pure grammar.emptyRules
  | unreachableNonterminals => grammar.unreachableNonterminals
  | unproductiveNonterminals => grammar.unproductiveNonterminals
  | unusedTerminals => pure grammar.unusedTerminals
  | unusedPrecedences => do
      let table ← prepared.precedencesFor grammar
      grammar.unusedPrecedences table
  | ambiguousNonassoc => do
      let table ← prepared.precedencesFor grammar
      let follows ← prepared.followsFor grammar
      table.ambiguities follows

/-- The checks that go by name only. -/
def byName : List Check := [emptyRules, unusedTerminals]

/-- The checks behind the one for undefined symbols, in order. -/
def structural : List Check :=
  [emptyRules, unreachableNonterminals, unproductiveNonterminals, unusedTerminals,
    unusedPrecedences, ambiguousNonassoc]

end Check

namespace Grammar

def validate (grammar : Grammar) (prepared : PreparedTables) : Noted Report := do
  let undefinedSymbols := grammar.undefinedSymbols
  let checks := if undefinedSymbols.isEmpty then Check.structural else Check.byName
  if !undefinedSymbols.isEmpty then
    Noted.note (.checksSkipped undefinedSymbols.length)
  let found ← checks.mapM fun check => check.run prepared grammar
  let diagnostics := undefinedSymbols ++ found.flatten
  diagnostics.forM fun diagnostic => Noted.note (.finding .validation diagnostic)
  return ⟨diagnostics⟩

end Grammar

end GrammarKit
