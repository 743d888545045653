import GrammarKit.Proofs.Implicit.Analyses
import GrammarKit.Proofs.Implicit.Built

/-!
# Clashes that implicit tokens bring up

Precedences and what follows a nonterminal are the same with and without implicit tokens. Still the
findings differ: a production that ends in a token ends in the implicit rule once there are implicit
tokens, and is then taken for one that ends in an operand. Productions that end in a nonterminal
are reported alike.
-/

namespace GrammarKit

set_option autoImplicit false

def Production.EndsInToken (production : Production) : Prop :=
  ∃ symbol ∈ production.rhs.getLast?, symbol.isTerminal

namespace Scheme.Relates

variable {scheme : Scheme} {plain padded : Grammar} (related : scheme.Relates plain padded)

include related

/-- With the implicit rule behind its last token, each production that is not empty ends in a
nonterminal. -/
theorem woven_ends_iff {production : Production} :
    (scheme.weaveProduction production).EndsInNonterminal ↔
      production.EndsInNonterminal ∨ production.EndsInToken := by
  unfold Production.EndsInNonterminal Production.EndsInToken weaveProduction
  rcases List.eq_nil_or_concat production.rhs with empty | ⟨front, last, shape⟩
  · simp [empty]
  · rw [shape, List.concat_eq_append, weave_append]
    cases kind : last.isTerminal with
    | true =>
        rw [weave_terminal kind]
        simp [kind, related.skip_kind]
    | false =>
        rw [weave_nonterminal kind]
        simp [kind]

theorem woven_clashes_iff {production : Production} (member : production ∈ plain.leading)
    {terminal : Symbol} :
    padded.Clashes (scheme.weaveProduction production) terminal ↔
      plain.Clashes production terminal := by
  unfold Grammar.Clashes
  rw [related.production_precedence_eq, related.precedence_of_eq]
  have follows : padded.Follows production.lhs terminal ↔ plain.Follows production.lhs terminal :=
    related.follows_iff (related.heads_declared production member)
  change (∃ precedence, _ ∧ _ ∧ _ ∧ padded.Follows production.lhs terminal) ↔ _
  rw [follows]

theorem reports_iff (plainNumbered : plain.ProductionsNumbered)
    (paddedNumbered : padded.ProductionsNumbered) {production : Production}
    (member : production ∈ plain.leading) {terminal : Symbol} :
    padded.ReportsClash production.index terminal ↔
      plain.ReportsClash production.index terminal ∨
        production.EndsInToken ∧ terminal ∈ plain.terminals ∧
          plain.Clashes production terminal := by
  have own : plain.ReportsClash production.index terminal ↔ _ :=
    Grammar.reports_clash_iff related.plain_whole plainNumbered (List.mem_append_left _ member)
  have woven : padded.ReportsClash production.index terminal ↔ _ :=
    Grammar.reports_clash_iff related.padded_whole paddedNumbered (related.woven_mem member)
  rw [related.woven_ends_iff, related.woven_clashes_iff member, related.same_terminals] at woven
  rw [own, woven]
  tauto

end Scheme.Relates

namespace Declarations

/-- Implicit tokens hide no clash. Those they bring up are the clashes of productions that end in a
token. -/
theorem implicit_tokens_bring_up_clashes {declarations : Declarations} {names : List String}
    {eco : Grammar} (listed : declarations.implicitTokens = some names) (filled : names ≠ [])
    (built : declarations.build .eco = .ok eco) :
    ∃ plain, declarations.withoutImplicitTokens.build .plain = .ok plain ∧
      ∀ production ∈ plain.leading, ∀ terminal,
        (eco.ReportsClash production.index terminal ↔
          plain.ReportsClash production.index terminal ∨
            production.EndsInToken ∧ terminal ∈ plain.terminals ∧
              plain.Clashes production terminal) := by
  have implicit : declarations.HasImplicit names := ⟨listed, filled⟩
  obtain ⟨plain, scheme, without, related, _, _⟩ := implicit.grammars built
  refine ⟨plain, without, ?_⟩
  intro production member terminal
  exact related.reports_iff (productions_numbered_of_build without)
    (productions_numbered_of_build built) member

section Postfix

/-- An expression may have a non-associative operator behind it. -/
def postfixDeclarations : Declarations where
  rules := [⟨"E", [⟨[.rule "E", .token "!"], none⟩, ⟨[.token "n"], none⟩]⟩]
  tokens := ["n", "w"]
  precedenceLines := [⟨.nonassociative, ["!"]⟩]
  implicitTokens := some ["w"]

def postfixEco : Grammar where
  variant := .eco
  tokens := [⟨.terminal, 0, "n"⟩, ⟨.terminal, 1, "w"⟩, ⟨.terminal, 2, "!"⟩]
  eof := ⟨.terminal, 3, "$"⟩
  nonterminals := [⟨.nonterminal, 0, "E"⟩, ⟨.nonterminal, 1, "~"⟩, ⟨.nonterminal, 2, "E'"⟩]
  leading := [
    ⟨0, ⟨.nonterminal, 0, "E"⟩,
      [⟨.nonterminal, 0, "E"⟩, ⟨.terminal, 2, "!"⟩, ⟨.nonterminal, 1, "~"⟩], none⟩,
    ⟨1, ⟨.nonterminal, 0, "E"⟩, [⟨.terminal, 0, "n"⟩, ⟨.nonterminal, 1, "~"⟩], none⟩,
    ⟨2, ⟨.nonterminal, 1, "~"⟩, [⟨.terminal, 1, "w"⟩, ⟨.nonterminal, 1, "~"⟩], none⟩,
    ⟨3, ⟨.nonterminal, 1, "~"⟩, [], none⟩]
  startProduction := ⟨4, ⟨.nonterminal, 2, "E'"⟩,
    [⟨.nonterminal, 1, "~"⟩, ⟨.nonterminal, 0, "E"⟩, ⟨.terminal, 3, "$"⟩], none⟩
  start := ⟨.nonterminal, 0, "E"⟩
  implicitRule := some ⟨.nonterminal, 1, "~"⟩
  precedences := .ofPairs [("!", ⟨1, .nonassociative⟩)]
  errorTexts := ∅

def postfixPlain : Grammar where
  variant := .plain
  tokens := [⟨.terminal, 0, "n"⟩, ⟨.terminal, 1, "w"⟩, ⟨.terminal, 2, "!"⟩]
  eof := ⟨.terminal, 3, "$"⟩
  nonterminals := [⟨.nonterminal, 0, "E"⟩, ⟨.nonterminal, 1, "E'"⟩]
  leading := [
    ⟨0, ⟨.nonterminal, 0, "E"⟩, [⟨.nonterminal, 0, "E"⟩, ⟨.terminal, 2, "!"⟩], none⟩,
    ⟨1, ⟨.nonterminal, 0, "E"⟩, [⟨.terminal, 0, "n"⟩], none⟩]
  startProduction := ⟨2, ⟨.nonterminal, 1, "E'"⟩,
    [⟨.nonterminal, 0, "E"⟩, ⟨.terminal, 3, "$"⟩], none⟩
  start := ⟨.nonterminal, 0, "E"⟩
  implicitRule := none
  precedences := .ofPairs [("!", ⟨1, .nonassociative⟩)]
  errorTexts := ∅

theorem postfix_eco_built : postfixDeclarations.build .eco = .ok postfixEco := by
  rfl

theorem postfix_plain_built :
    postfixDeclarations.withoutImplicitTokens.build .plain = .ok postfixPlain := by
  rfl

theorem clashes_of_postfix :
    postfixDeclarations.implicitTokens = some ["w"] ∧ ["w"] ≠ [] ∧
      postfixDeclarations.build .eco = .ok postfixEco ∧
      ∀ production ∈ postfixPlain.leading, ∀ terminal,
        (postfixEco.ReportsClash production.index terminal ↔
          postfixPlain.ReportsClash production.index terminal ∨
            production.EndsInToken ∧ terminal ∈ postfixPlain.terminals ∧
              postfixPlain.Clashes production terminal) := by
  refine ⟨rfl, by decide, postfix_eco_built, ?_⟩
  obtain ⟨plain, built, clashes⟩ :=
    implicit_tokens_bring_up_clashes rfl (by decide) postfix_eco_built
  obtain rfl : postfixPlain = plain := Except.ok.inj (postfix_plain_built.symm.trans built)
  exact clashes

theorem postfix_clash : postfixPlain.Clashes postfixPlain.leading[0] ⟨.terminal, 2, "!"⟩ := by
  refine ⟨⟨1, .nonassociative⟩, rfl, rfl, rfl, ?_⟩
  refine Or.inl ⟨⟨.nonterminal, 0, "E"⟩, by decide, [], [], ?_⟩
  exact .of_production (show postfixPlain.leading[0] ∈ postfixPlain.productions by decide)

/-- Two operators in a row are reported only once there are implicit tokens. -/
theorem postfix_reported_with_implicit_tokens :
    postfixEco.ReportsClash 0 ⟨.terminal, 2, "!"⟩ ∧
      ¬ postfixPlain.ReportsClash 0 ⟨.terminal, 2, "!"⟩ := by
  have implicit : postfixDeclarations.HasImplicit ["w"] := ⟨rfl, by decide⟩
  obtain ⟨plain, scheme, without, related, _, _⟩ := implicit.grammars postfix_eco_built
  obtain rfl : postfixPlain = plain := Except.ok.inj (postfix_plain_built.symm.trans without)
  have numbered := productions_numbered_of_build without
  constructor
  · apply (related.reports_iff numbered (productions_numbered_of_build postfix_eco_built)
      (show postfixPlain.leading[0] ∈ postfixPlain.leading by decide)).2
    exact Or.inr ⟨⟨⟨.terminal, 2, "!"⟩, rfl, rfl⟩, by decide, postfix_clash⟩
  · intro reported
    rcases ((Grammar.reports_clash_iff related.plain_whole numbered
      (show postfixPlain.leading[0] ∈ postfixPlain.productions by decide)).1 reported).1 with
      ⟨last, final, kind⟩
    rw [← Option.some.inj final] at kind
    cases kind

end Postfix

end Declarations

end GrammarKit
