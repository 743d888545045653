import GrammarKit.Declarations
import GrammarKit.Fault
import GrammarKit.Slot

/-!
# Grammars

A grammar lists its terminals, nonterminals and productions. The last terminal is the end of the
input and the last production derives the whole input from a head of its own, so both are kept
apart from the rest of their lists.

Grammars built from declarations number everything by its place. A grammar assembled by hand may
hold symbols that no table knows; only the head of each production must lie inside the table of
nonterminals. Indices are looked up as places, negative ones included.
-/

namespace GrammarKit

set_option autoImplicit false

structure Grammar where
  variant : Variant
  tokens : List Symbol
  eof : Symbol
  nonterminals : List Symbol
  leading : List Production
  startProduction : Production
  start : Symbol
  implicitRule : Option Symbol
  precedences : Register String Precedence
  errorTexts : Register Int String

structure Rule where
  lhs : Symbol
  productions : List Production
deriving DecidableEq

namespace Rule

def isEmpty (rule : Rule) : Bool := rule.productions.isEmpty

end Rule

namespace Grammar

def terminals (grammar : Grammar) : List Symbol := grammar.tokens ++ [grammar.eof]

def productions (grammar : Grammar) : List Production :=
  grammar.leading ++ [grammar.startProduction]

/-- The nonterminal from which the start symbol and the end of the input are derived. -/
def augmentedStart (grammar : Grammar) : Symbol := grammar.startProduction.lhs

def ruleSlot? (grammar : Grammar) (index : Int) : Option Nat :=
  slot? grammar.nonterminals.length index

/-- The productions whose head lies at `place`, in order. -/
def productionsAt (grammar : Grammar) (place : Nat) : List Production :=
  grammar.productions.filter fun production =>
    grammar.ruleSlot? production.lhs.index = some place

def rules (grammar : Grammar) : List Rule :=
  grammar.nonterminals.zipIdx.map fun (symbol, place) => ⟨symbol, grammar.productionsAt place⟩

@[simp]
theorem length_rules (grammar : Grammar) : grammar.rules.length = grammar.nonterminals.length := by
  simp [rules]

/-- Puts tables together without a look at the right-hand sides. -/
def assemble (terminals nonterminals : List Symbol) (productions : List Production)
    (start : Symbol) (precedences : Register String Precedence)
    (errorTexts : Register Int String) : Except Fault Grammar := do
  let eof ← require terminals.getLast? .outsideGrammar
  let startProduction ← require productions.getLast? .outsideGrammar
  let headed (production : Production) : Bool :=
    (slot? nonterminals.length production.lhs.index).isSome
  if productions.all headed then
    return {
      variant := .plain
      tokens := terminals.dropLast
      eof := eof
      nonterminals := nonterminals
      leading := productions.dropLast
      startProduction := startProduction
      start := start
      implicitRule := none
      precedences := precedences
      errorTexts := errorTexts
    }
  else
    throw .outsideTable

section Lookup

/-- The symbol with a name. A nonterminal hides a terminal, and a later symbol an earlier one. -/
def symbol (grammar : Grammar) (name : String) : Except Fault Symbol :=
  require ((grammar.terminals ++ grammar.nonterminals).reverse.find? fun known => known.name = name)
    (.unknownKey name)

def terminal (grammar : Grammar) (index : Int) : Except Fault Symbol :=
  require (item? grammar.terminals index) .outsideGrammar

def nonterminal (grammar : Grammar) (index : Int) : Except Fault Symbol :=
  require (item? grammar.nonterminals index) .outsideGrammar

def production (grammar : Grammar) (index : Int) : Except Fault Production :=
  require (item? grammar.productions index) .outsideGrammar

def rule (grammar : Grammar) (index : Int) : Except Fault Rule :=
  require (item? grammar.rules index) .outsideGrammar

def ruleOf (grammar : Grammar) (symbol : Symbol) : Except Fault Rule :=
  if symbol.isTerminal then throw (.terminalGiven symbol.name) else grammar.rule symbol.index

/-- The text to show for a terminal in error messages: its own name unless one was declared. -/
def errorText (grammar : Grammar) (terminal : Symbol) : String :=
  (grammar.errorTexts.find? terminal.index).getD terminal.name

end Lookup

section Names

def properTerminals (grammar : Grammar) : List Symbol :=
  grammar.terminals.filter fun terminal => terminal ≠ grammar.eof

def tokenNames (grammar : Grammar) : NameSet :=
  SortedSet.ofList (grammar.properTerminals.map (·.name))

def referencedTokens (grammar : Grammar) : List Symbol :=
  (grammar.productions.flatMap (·.rhs)).filter fun symbol =>
    symbol.isTerminal ∧ symbol ≠ grammar.eof

def referencedTokenNames (grammar : Grammar) : NameSet :=
  SortedSet.ofList (grammar.referencedTokens.map (·.name))

def tokenIds (grammar : Grammar) : Register String Int :=
  Register.ofPairs (grammar.properTerminals.map fun terminal => (terminal.name, terminal.index))

end Names

def text (grammar : Grammar) : String :=
  "\n".intercalate (grammar.productions.map (·.text))

def summary (grammar : Grammar) : String :=
  "Grammar(start=" ++ Text.quoted grammar.start.name
    ++ ", terminals=" ++ toString grammar.terminals.length
    ++ ", nonterminals=" ++ toString grammar.nonterminals.length
    ++ ", productions=" ++ toString grammar.productions.length ++ ")"

end Grammar

end GrammarKit
