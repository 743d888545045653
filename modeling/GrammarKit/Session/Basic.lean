import GrammarKit.Analysis.Validation
import GrammarKit.Grammar.Build
import GrammarKit.Lexer.Sync
import GrammarKit.Sentence.Extremes
import GrammarKit.Session.Transcript
import GrammarKit.Tree.Arena

/-!
# Sessions

A session keeps the grammars, generators, sources, nodes and declarations that requests refer to.
A request that fails leaves the session as it was, apart from the journal and from what a source of
choices has given away by then, with the transcript of it. The journal has the latest note first.
-/

namespace GrammarKit

set_option autoImplicit false

structure Session where
  grammars : List Grammar := []
  declarations : Declarations := {}
  generators : Register String Generator := ∅
  sources : Register String KeptSource := ∅
  transcripts : Transcripts := {}
  arena : Arena := Arena.empty
  nodes : Register String Nat := ∅
  journal : List Note := []

instance : Inhabited Session where
  default := {}

abbrev Action := ExceptT Fault (StateM Session)

inductive GrammarSource where
  | declared (declarations : Declarations) (variant : Variant)
  | assembled (terminals nonterminals : List Symbol) (productions : List Production)
      (start : Symbol) (precedences : Register String Precedence)
      (errorTexts : Register Int String)

/-- How a symbol is asked for. A given symbol is taken as it is. -/
inductive SymbolRequest where
  | named (name : String)
  | terminalAt (index : Int)
  | nonterminalAt (index : Int)
  | given (symbol : Symbol)

inductive RuleRequest where
  | indexed (index : Int)
  | headed (symbol : SymbolRequest)

namespace Declarations

/-- Builds a grammar and notes its size. -/
def compile (declarations : Declarations) (variant : Variant) : Noted Grammar := do
  let grammar ← declarations.build variant
  Noted.note (.grammarBuilt grammar.terminals.length grammar.nonterminals.length
    grammar.productions.length grammar.start.name)
  return grammar

end Declarations

namespace GrammarSource

def make : GrammarSource → Noted Grammar
  | declared declarations variant => declarations.compile variant
  | assembled terminals nonterminals productions start precedences errorTexts =>
      Grammar.assemble terminals nonterminals productions start precedences errorTexts

end GrammarSource

namespace SymbolRequest

def resolve (request : SymbolRequest) (grammar : Grammar) : Except Fault Symbol :=
  match request with
  | named name => grammar.symbol name
  | terminalAt index => grammar.terminal index
  | nonterminalAt index => grammar.nonterminal index
  | given symbol => return symbol

end SymbolRequest

namespace RuleRequest

def resolve (request : RuleRequest) (grammar : Grammar) : Except Fault Rule :=
  match request with
  | indexed index => grammar.rule index
  | headed symbol => do grammar.ruleOf (← symbol.resolve grammar)

end RuleRequest

namespace Session

/-- Enters the notes of a computation, also when it fails, and hands out its outcome. -/
def attempt {α : Type} (noted : Noted α) : Action (Except Fault α) := do
  modify fun session => { session with journal := noted.notes.reverse ++ session.journal }
  return noted.outcome

def record {α : Type} (noted : Noted α) : Action α := do
  (← attempt noted)

instance : MonadLift Noted Action where
  monadLift := record

/-- Tries to make every grammar. The session knows those that could be made. -/
def opening (sources : List GrammarSource) : List (Except Fault Grammar) × Session :=
  let made := sources.map fun source => source.make
  let grammars := made.filterMap fun noted => noted.outcome.toOption
  let notes := made.flatMap (·.notes)
  (made.map (·.outcome), { grammars := grammars, journal := notes.reverse })

def notes (session : Session) : List Note := session.journal.reverse

def draws (session : Session) (transcript : Nat) : List Draw :=
  session.transcripts.draws transcript

def grammar (index : Int) : Action Grammar := do
  require (item? (← get).grammars index) .outsideTable

def symbol (grammarIndex : Int) (request : SymbolRequest) : Action Symbol := do
  request.resolve (← grammar grammarIndex)

def generator (id : String) : Action Generator := do
  require ((← get).generators.find? id) (.unknownKey id)

def source (id : String) : Action KeptSource := do
  require ((← get).sources.find? id) (.unknownKey id)

def node (id : String) : Action Nat := do
  require ((← get).nodes.find? id) (.unknownKey id)

end Session

end GrammarKit
