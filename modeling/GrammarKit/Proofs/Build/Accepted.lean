import GrammarKit.Grammar.Build
import GrammarKit.Proofs.Outcomes

/-!
# Accepted declarations

Declarations become a grammar exactly when every check lets them pass, and the grammar is then put
together from what the checks hand over. All that is known of a built grammar follows from these two
facts.
-/

namespace GrammarKit

set_option autoImplicit false

namespace Declarations

structure Parts where
  start : Symbol
  precedences : Register String Precedence
  clauses : List Clause
  errorTexts : Register Int String
  implicitTokens : List Symbol

def scope (declarations : Declarations) (variant : Variant)
    (precedences : Register String Precedence) : Scope where
  rules := declarations.ruleSymbols
  tokens := numberedSymbols .terminal declarations.tokenNames
  implicitRule := declarations.implicitRule? variant
  precedences := precedences

structure Accepted (declarations : Declarations) (variant : Variant) (parts : Parts) : Prop where
  rules : declarations.checkRules = .ok ()
  start : declarations.startSymbol = .ok parts.start
  tokens : declarations.tokenNames.forM declarations.checkToken = .ok ()
  precedences : declarations.precedences = .ok parts.precedences
  clauses : declarations.clauses (declarations.scope variant parts.precedences) = .ok parts.clauses
  errorTexts : declarations.numberedErrorTexts (declarations.scope variant parts.precedences) =
    .ok parts.errorTexts
  implicitTokens : declarations.implicitTokenSymbols variant
    (declarations.scope variant parts.precedences) = .ok parts.implicitTokens

/-- The end of the input comes behind all tokens. -/
def eofSymbol (declarations : Declarations) : Symbol :=
  ⟨.terminal, (numberedSymbols .terminal declarations.tokenNames).length, endOfInput⟩

def leadingClauses (declarations : Declarations) (variant : Variant) (parts : Parts) :
    List Clause :=
  parts.clauses ++ implicitClauses (declarations.implicitRule? variant) parts.implicitTokens

def augmentedSymbol (declarations : Declarations) (variant : Variant) (parts : Parts) : Symbol :=
  declarations.augmentedStart parts.start (declarations.implicitRule? variant)

def grammarOf (declarations : Declarations) (variant : Variant) (parts : Parts) : Grammar where
  variant := variant
  tokens := numberedSymbols .terminal declarations.tokenNames
  eof := declarations.eofSymbol
  nonterminals := declarations.ruleSymbols ++ (declarations.implicitRule? variant).toList ++
    [declarations.augmentedSymbol variant parts]
  leading := numberedProductions (declarations.leadingClauses variant parts)
  startProduction := {
    index := (numberedProductions (declarations.leadingClauses variant parts)).length
    lhs := declarations.augmentedSymbol variant parts
    rhs := (declarations.implicitRule? variant).toList ++ [parts.start, declarations.eofSymbol]
    precedence := none
  }
  start := parts.start
  implicitRule := declarations.implicitRule? variant
  precedences := parts.precedences
  errorTexts := parts.errorTexts

theorem build_eq_ok_iff {declarations : Declarations} {variant : Variant} {grammar : Grammar} :
    declarations.build variant = .ok grammar ↔
      ∃ parts, declarations.Accepted variant parts ∧
        declarations.grammarOf variant parts = grammar := by
  unfold build
  simp only [except_bind_eq_ok_iff]
  constructor
  · intro built
    rcases built with ⟨⟨⟩, rules, start, started, ⟨⟩, tokens, precedences, ranked, clauses, made,
      errorTexts, numbered, implicitTokens, listed, equal⟩
    exact ⟨⟨start, precedences, clauses, errorTexts, implicitTokens⟩,
      ⟨rules, started, tokens, ranked, made, numbered, listed⟩, Except.ok.inj equal⟩
  · intro checked
    rcases checked with ⟨parts, accepted, rfl⟩
    exact ⟨(), accepted.rules, parts.start, accepted.start, (), accepted.tokens,
      parts.precedences, accepted.precedences, parts.clauses, accepted.clauses,
      parts.errorTexts, accepted.errorTexts, parts.implicitTokens, accepted.implicitTokens, rfl⟩

end Declarations

end GrammarKit
