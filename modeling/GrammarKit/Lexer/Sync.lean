import GrammarKit.Grammar.Basic
import GrammarKit.Journal

/-!
# Agreement with a lexer

The tokens that a lexer defines are compared with the tokens that occur in the right-hand sides of
a grammar. Lexers often define tokens which the grammar does not use yet, so by default only tokens
that the lexer can never produce are rejected.
-/

namespace GrammarKit

set_option autoImplicit false

structure SyncPolicy where
  rejectUnusedInGrammar : Bool := false
  rejectUndefinedInLexer : Bool := true

namespace SyncPolicy

/-- The difference for which a report is rejected. Tokens that the lexer lacks come first. -/
def rejectedGap? (policy : SyncPolicy) (report : TokenReport) : Option TokenGap :=
  if policy.rejectUndefinedInLexer ∧ !report.missingFromLexer.toList.isEmpty then
    some .undefinedInLexer
  else if policy.rejectUnusedInGrammar ∧ !report.missingFromParser.toList.isEmpty then
    some .unusedInGrammar
  else none

end SyncPolicy

namespace Grammar

def compareTokens (grammar : Grammar) (lexerTokens : List String) : TokenReport :=
  let defined := SortedSet.ofList lexerTokens
  let used := grammar.referencedTokenNames
  ⟨used.without defined, defined.without used⟩

def syncTokens (grammar : Grammar) (lexerTokens : List String) (policy : SyncPolicy) :
    Noted TokenReport := do
  let report := grammar.compareTokens lexerTokens
  match policy.rejectedGap? report with
  | some gap =>
      Noted.note (.tokensRejected (report.rejection gap))
      Noted.fail (.tokensOutOfStep report gap)
  | none =>
      if !report.isClean then
        Noted.note (.tokensDiffer report.missingFromLexer.size report.missingFromParser.size)
      return report

end Grammar

end GrammarKit
