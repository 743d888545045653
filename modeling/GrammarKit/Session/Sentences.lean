import GrammarKit.Session.Analyses

/-!
# Requests for sentences

Generators and sources are kept by id. A source goes on where its last use left off, also when that
use failed. Its draws are entered in the transcript that was opened last for it: one is opened when
the source comes into use, and one for every tree that is to be reported with its draws. So a later
sentence from the same source adds to the draws of an earlier tree.
-/

namespace GrammarKit.Session

set_option autoImplicit false

/-- What is known about the sentences of a productive nonterminal. -/
structure CostLine where
  least : Int
  greatest : Option Int
  sentence : List Symbol

/-- A tree with the number of the transcript that was opened for it. Only a scripted source reports
its draws. -/
structure GeneratedTree where
  tree : DerivationTree
  transcript : Option Nat

def makeGenerator (id : String) (grammarIndex : Int) (options : GeneratorOptions)
    (firstsFrom : Option Int) : Action Generator := do
  let grammar ← grammar grammarIndex
  let firsts ← firstsFrom.mapM firsts
  let generator ← Generator.ofGrammar grammar options firsts
  modify fun session => { session with generators := session.generators.put id generator }
  return generator

def openTranscript : Action Nat :=
  modifyGet fun session =>
    let (number, transcripts) := session.transcripts.opened
    (number, { session with transcripts := transcripts })

def setSource (id : String) (source : Source) : Action Unit := do
  let transcript ← openTranscript
  modify fun session => { session with sources := session.sources.put id ⟨source, transcript⟩ }

/-- Derives a tree with a source that is kept under an id, and enters the draws. -/
def deriveWith (generator : Generator) (symbol : Symbol) (id : String) (kept : KeptSource) :
    Action DerivationTree := do
  let (outcome, progress) := generator.tree Source.picker symbol kept.source
  modify fun session =>
    { session with
      sources := session.sources.put id { kept with source := progress.source }
      transcripts := session.transcripts.enter kept.transcript progress.draws }
  outcome

/-- Derives a tree with the source of the given id, or with the generator's own. -/
def derive (generatorId : String) (request : SymbolRequest) (sourceId : Option String) :
    Action DerivationTree := do
  let generator ← generator generatorId
  let symbol ← request.resolve generator.grammar
  match sourceId with
  | none => generator.ownTree symbol
  | some id => deriveWith generator symbol id (← source id)

def generate (generatorId : String) (request : SymbolRequest) (sourceId : Option String) :
    Action GeneratedTree := do
  let generator ← generator generatorId
  let symbol ← request.resolve generator.grammar
  match sourceId with
  | none => return ⟨← generator.ownTree symbol, none⟩
  | some id =>
      let kept ← source id
      let transcript ← openTranscript
      let tree ← deriveWith generator symbol id { kept with transcript := transcript }
      return ⟨tree, if kept.source.isScripted then some transcript else none⟩

def sentences (generatorId : String) (request : SymbolRequest) (count : Option Int) (take : Nat) :
    Action (List (List Symbol)) := do
  let generator ← generator generatorId
  generator.sentences (← request.resolve generator.grammar) count take

def minSentence (generatorId : String) (request : SymbolRequest) : Action (List Symbol) := do
  let generator ← generator generatorId
  generator.minSentence (← request.resolve generator.grammar)

def minSentenceCost (generatorId : String) (request : SymbolRequest) : Action Int := do
  let generator ← generator generatorId
  generator.minSentenceCost (← request.resolve generator.grammar)

def maxSentenceCost (generatorId : String) (request : SymbolRequest) : Action (Option Int) := do
  let generator ← generator generatorId
  generator.maxSentenceCost (← request.resolve generator.grammar)

def costLine (generator : Generator) (outlook : Generator.Outlook) (symbol : Symbol) :
    Noted CostLine := do
  let least ← generator.minSentenceCost symbol
  let greatest ← generator.maxSentenceCostBy outlook symbol
  let sentence ← generator.minSentence symbol
  return ⟨least, greatest, sentence⟩

/-- The costs of every nonterminal. One that derives no finite sequence has that fault in place of
costs; any other fault ends the request. -/
def costSheet (generatorId : String) : Action (List (String × Except Fault CostLine)) := do
  let generator ← generator generatorId
  let outlook := generator.outlook
  generator.grammar.nonterminals.mapM fun symbol => do
    match ← attempt (costLine generator outlook symbol) with
    | .ok line => return (symbol.name, .ok line)
    | .error (.noDerivation origin) => return (symbol.name, .error (.noDerivation origin))
    | .error fault => throw fault

end GrammarKit.Session
