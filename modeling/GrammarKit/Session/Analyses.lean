import GrammarKit.Analysis.View
import GrammarKit.Session.Basic

/-!
# Requests for analyses

Every request makes the tables it needs anew from the grammar it names.
-/

namespace GrammarKit.Session

set_option autoImplicit false

/-- A table of one of the two kinds. Tables of different kinds are never equal. -/
inductive SetTable where
  | firsts (table : FirstTable)
  | follows (table : FollowTable)
deriving DecidableEq

/-- A part of a report put together on request. -/
inductive ReportItem where
  | validation
  | ambiguities
  | shiftReduce (production : Int) (token : SymbolRequest)
  | reduceReduce (first second : Int)

def lookupRule (grammarIndex : Int) (request : RuleRequest) : Action Rule := do
  request.resolve (← grammar grammarIndex)

def hasPath (grammarIndex : Int) (origin target : SymbolRequest) : Action Bool := do
  let origin ← symbol grammarIndex origin
  let target ← symbol grammarIndex target
  (← grammar grammarIndex).hasPath origin target

def firsts (grammarIndex : Int) : Action FirstTable := do
  FirstTable.ofGrammar (← grammar grammarIndex)

/-- FOLLOW sets over the FIRST sets of the grammar itself, or of the grammar at `firstsFrom`. -/
def follows (grammarIndex : Int) (firstsFrom : Option Int) : Action FollowTable := do
  let grammar ← grammar grammarIndex
  let firsts ← firsts (firstsFrom.getD grammarIndex)
  FollowTable.ofFirsts grammar firsts

def precedences (grammarIndex : Int) : Action PrecedenceTable := do
  PrecedenceTable.ofGrammar (← grammar grammarIndex)

def firstListing (grammarIndex : Int) : Action (List (String × List String × Bool)) := do
  let grammar ← grammar grammarIndex
  (← firsts grammarIndex).listing grammar

def followListing (grammarIndex : Int) (firstsFrom : Option Int) :
    Action (List (String × List String)) := do
  let grammar ← grammar grammarIndex
  (← follows grammarIndex firstsFrom).listing grammar

/-- The FIRST set of a symbol, and once more whether it is nullable. -/
def firstOf (grammarIndex : Int) (request : SymbolRequest) : Action (First × Bool) := do
  let table ← firsts grammarIndex
  let symbol ← symbol grammarIndex request
  return (← table.ofSymbol symbol, ← table.isNullable symbol)

def firstOfSequence (grammarIndex : Int) (requests : List SymbolRequest) : Action First := do
  let table ← firsts grammarIndex
  table.ofSequence (← requests.mapM (symbol grammarIndex))

def followOf (grammarIndex : Int) (request : SymbolRequest) : Action IndexSet := do
  let table ← follows grammarIndex none
  table.ofSymbol (← symbol grammarIndex request)

def firstFrame (grammarIndex : Int) : Action (Frame String Bool) := do
  let grammar ← grammar grammarIndex
  (← firsts grammarIndex).frame grammar

def followFrame (grammarIndex : Int) : Action (Frame String Bool) := do
  let grammar ← grammar grammarIndex
  (← follows grammarIndex none).frame grammar

def firstText (grammarIndex : Int) : Action String := do
  let grammar ← grammar grammarIndex
  (← firsts grammarIndex).text grammar

def followText (grammarIndex : Int) : Action String := do
  let grammar ← grammar grammarIndex
  (← follows grammarIndex none).text grammar

def firstTable (grammarIndex : Int) : Action SetTable := do
  return .firsts (← firsts grammarIndex)

def followTable (grammarIndex : Int) : Action SetTable := do
  return .follows (← follows grammarIndex none)

def agree (left right : Action SetTable) : Action Bool := do
  return decide ((← left) = (← right))

/-- Compares the tables of two grammars, like with like, and then those of the first grammar with
each other. Both tables are made for each comparison, once both grammars are found. -/
def compareTables (left right : Int) : Action (List Bool) := do
  let _ ← grammar left
  let _ ← grammar right
  return [← agree (firstTable left) (firstTable right),
    ← agree (followTable left) (followTable right),
    ← agree (firstTable left) (followTable left),
    ← agree (followTable left) (firstTable left)]

def precedenceListing (grammarIndex : Int) : Action PrecedenceListing := do
  (← precedences grammarIndex).listing

def precedenceOf (grammarIndex : Int) (token : SymbolRequest) : Action (Option Precedence) := do
  let table ← precedences grammarIndex
  table.ofToken (← symbol grammarIndex token)

def noteResolution (resolution : Resolution) : Action Resolution := do
  resolution.diagnostic.toList.forM fun diagnostic =>
    record (Noted.note (.finding .precedence diagnostic))
  return resolution

def resolveShiftReduce (grammarIndex production : Int) (token : SymbolRequest) :
    Action Resolution := do
  let grammar ← grammar grammarIndex
  let table ← precedences grammarIndex
  let production ← grammar.production production
  let token ← token.resolve grammar
  noteResolution (← table.resolveShiftReduce production token)

def resolveReduceReduce (grammarIndex first second : Int) : Action Resolution := do
  let grammar ← grammar grammarIndex
  let _ ← precedences grammarIndex
  let first ← grammar.production first
  let second ← grammar.production second
  noteResolution (PrecedenceTable.resolveReduceReduce first second)

def decisions (grammarIndex : Int) : Action (List (List Resolution)) := do
  let grammar ← grammar grammarIndex
  let table ← precedences grammarIndex
  grammar.productions.mapM fun production =>
    grammar.terminals.mapM fun terminal => do
      noteResolution (← table.resolveShiftReduce production terminal)

def ambiguities (grammarIndex : Int) (firstsFrom : Option Int) : Action (List Diagnostic) := do
  let table ← precedences grammarIndex
  let follows ← follows grammarIndex firstsFrom
  table.ambiguities follows

/-- Validates a grammar with tables of the grammars named for them, if any are. -/
def validate (grammarIndex : Int) (firstsFrom followsFrom precedencesFrom : Option Int) :
    Action Report := do
  let grammar ← grammar grammarIndex
  let firsts ← firstsFrom.mapM firsts
  let follows ← followsFrom.mapM fun index => follows index none
  let precedences ← precedencesFrom.mapM precedences
  grammar.validate ⟨firsts, follows, precedences⟩

def findings (grammarIndex : Int) : ReportItem → Action (List Diagnostic)
  | .validation => return (← validate grammarIndex none none none).diagnostics
  | .ambiguities => ambiguities grammarIndex none
  | .shiftReduce production token =>
      return (← resolveShiftReduce grammarIndex production token).diagnostic.toList
  | .reduceReduce first second =>
      return (← resolveReduceReduce grammarIndex first second).diagnostic.toList

/-- A report is put together only for a grammar that has a precedence table. -/
def report (grammarIndex : Int) (items : List ReportItem) : Action Report := do
  let _ ← precedences grammarIndex
  let found ← items.mapM (findings grammarIndex)
  return ⟨found.flatten⟩

def check (grammarIndex : Int) (check : Check) : Action (List Diagnostic) := do
  check.run {} (← grammar grammarIndex)

def syncTokens (grammarIndex : Int) (lexerTokens : List String) (policy : SyncPolicy) :
    Action TokenReport := do
  (← grammar grammarIndex).syncTokens lexerTokens policy

end GrammarKit.Session
