import GrammarKit.Proofs.Build.ReadBack
import GrammarKit.Proofs.SymbolNames

/-!
# Names that no author chose

The implicit rule and the augmented start take names of their own, the implicit rule first. Each is
the shortest extension of its base by apostrophes that declared names leave free, and the augmented
start keeps clear of the implicit rule as well, even where both extend one base. The name of the end
of the input is not among the names in use; no extension of either base can come to it.
-/

namespace GrammarKit

set_option autoImplicit false

/-- Every name that an author gave to a rule or a token. -/
def Declarations.declaredNames (declarations : Declarations) : List String :=
  declarations.ruleNames ++ declarations.declaredTokens

/-- The implicit rule and the augmented start bear names of their own, as short as they can be. The
names in use are those of all rules and tokens, and for the augmented start that of the implicit
rule. -/
structure Grammar.NamesFreshly (grammar : Grammar) (declarations : Declarations) : Prop where
  implicit_given : grammar.implicitRule.isSome ↔ grammar.variant = .eco ∧
    ∃ token names, declarations.implicitTokens = some (token :: names)
  implicit_shortest : ∀ implicitRule, grammar.implicitRule = some implicitRule →
    ∃ count, ShortestFree declarations.declaredNames "~" count implicitRule.name
  augmented_shortest : ∃ count,
    ShortestFree (declarations.declaredNames ++ grammar.implicitRule.toList.map (·.name))
      (grammar.start.name ++ "'") count grammar.augmentedStart.name
  apart : ∀ implicitRule, grammar.implicitRule = some implicitRule →
    implicitRule.name ≠ grammar.augmentedStart.name
  implicit_unreserved : ∀ implicitRule, grammar.implicitRule = some implicitRule →
    implicitRule.name ≠ endOfInput
  augmented_unreserved : grammar.augmentedStart.name ≠ endOfInput

namespace Declarations

variable {declarations : Declarations} {variant : Variant} {grammar : Grammar}

theorem mem_declared_names_iff {name : String} :
    name ∈ declarations.ruleNames ++ declarations.tokenNames ↔
      name ∈ declarations.declaredNames := by
  unfold declaredNames
  rw [List.mem_append, List.mem_append, mem_token_names]

theorem implicit_rule_shortest {symbol : Symbol}
    (implicit : declarations.implicitRule? variant = some symbol) :
    ∃ count, ShortestFree declarations.declaredNames "~" count symbol.name := by
  obtain rfl := implicit_rule_eq implicit
  obtain ⟨count, shortest⟩ := fresh_name_is_least
    (declarations.ruleNames ++ declarations.tokenNames) implicitRuleBase
  exact ⟨count, shortest.congr fun _ => mem_declared_names_iff⟩

theorem augmented_shortest (declarations : Declarations) (variant : Variant) (parts : Parts) :
    ∃ count, ShortestFree
      (declarations.declaredNames ++ (declarations.implicitRule? variant).toList.map (·.name))
      (parts.start.name ++ "'") count (declarations.augmentedSymbol variant parts).name := by
  obtain ⟨count, shortest⟩ := fresh_name_is_least
    (declarations.ruleNames ++ declarations.tokenNames ++
      (declarations.implicitRule? variant).toList.map (·.name)) (parts.start.name ++ "'")
  refine ⟨count, shortest.congr fun name => ?_⟩
  rw [List.mem_append, mem_declared_names_iff, List.mem_append]

theorem names_freshly (built : declarations.build variant = .ok grammar) :
    grammar.NamesFreshly declarations := by
  obtain ⟨parts, _, rfl⟩ := build_eq_ok_iff.1 built
  constructor
  case implicit_given => exact implicit_rule_iff
  case implicit_shortest => exact fun _ implicit => implicit_rule_shortest implicit
  case augmented_shortest => exact augmented_shortest declarations variant parts
  case apart =>
    intro implicitRule implicit
    exact ((augmented_name declarations variant parts).2.2 implicitRule implicit).symm
  case implicit_unreserved => exact fun _ implicit => implicit_rule_unreserved implicit
  case augmented_unreserved => exact augmented_unreserved declarations variant parts

/-- Whatever names are in use, the search for a fresh name ends, and with nothing but the shortest
name that is free. In a grammar that was built, the names that no author chose are found so. -/
theorem fresh_names_are_shortest :
    (∀ (taken : List String) (base : String), ∃ count ≤ (takenAhead taken base).card,
      (∀ rounds final, SearchEnds taken base rounds final ↔
        rounds = count ∧ final = freshName taken base) ∧
      (freshName taken base).toList = base.toList ++ List.replicate count '\'' ∧
      ShortestFree taken base count (freshName taken base)) ∧
    ∀ (declarations : Declarations) (variant : Variant) (grammar : Grammar),
      declarations.build variant = .ok grammar → grammar.NamesFreshly declarations := by
  constructor
  · intro taken base
    obtain ⟨count, bounded, ends⟩ := fresh_name_found taken base
    have shortest := ends.shortest
    refine ⟨count, bounded, ?_, ?_, shortest⟩
    · exact fun rounds final => ends.only
    · rw [← to_list_primed, ← shortest.spelled]
  · intro declarations variant grammar built
    exact names_freshly built

section Contested

/-- A start rule with the name that the implicit rule would take. Both names to be made up extend
it, and a token stands in the way of the longer one. -/
def contestedDeclarations : Declarations where
  rules := [⟨"~", [⟨[.token "a"], none⟩]⟩]
  tokens := ["a", "~''"]
  implicitTokens := some ["a"]

def contested : Grammar where
  variant := .eco
  tokens := [⟨.terminal, 0, "a"⟩, ⟨.terminal, 1, "~''"⟩]
  eof := ⟨.terminal, 2, "$"⟩
  nonterminals := [⟨.nonterminal, 0, "~"⟩, ⟨.nonterminal, 1, "~'"⟩, ⟨.nonterminal, 2, "~'''"⟩]
  leading := [
    ⟨0, ⟨.nonterminal, 0, "~"⟩, [⟨.terminal, 0, "a"⟩, ⟨.nonterminal, 1, "~'"⟩], none⟩,
    ⟨1, ⟨.nonterminal, 1, "~'"⟩, [⟨.terminal, 0, "a"⟩, ⟨.nonterminal, 1, "~'"⟩], none⟩,
    ⟨2, ⟨.nonterminal, 1, "~'"⟩, [], none⟩]
  startProduction := ⟨3, ⟨.nonterminal, 2, "~'''"⟩,
    [⟨.nonterminal, 1, "~'"⟩, ⟨.nonterminal, 0, "~"⟩, ⟨.terminal, 2, "$"⟩], none⟩
  start := ⟨.nonterminal, 0, "~"⟩
  implicitRule := some ⟨.nonterminal, 1, "~'"⟩
  precedences := ∅
  errorTexts := ∅

theorem contested_built : contestedDeclarations.build .eco = .ok contested := by
  rfl

theorem contested_names_freshly :
    contestedDeclarations.build .eco = .ok contested ∧
    contested.NamesFreshly contestedDeclarations ∧
    ∃ count, ShortestFree ["~", "a", "~''", "~'"] "~'" count "~'''" := by
  have own := fresh_names_are_shortest.2 _ _ _ contested_built
  exact ⟨contested_built, own, own.augmented_shortest⟩

end Contested

end Declarations

end GrammarKit
