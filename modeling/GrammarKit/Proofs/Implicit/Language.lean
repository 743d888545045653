import GrammarKit.Proofs.Implicit.Built

/-!
# What implicit tokens mean

Implicit tokens may stand in front of the input and behind each of its tokens, in any number, and
this is all that they change. What a declared nonterminal derives is padded by them behind each
token. It does not matter whether the author's own rules mention implicit tokens, derive nothing,
or bear the name that the implicit rule would have taken.
-/

namespace GrammarKit

set_option autoImplicit false

namespace Grammar

/-- A row of tokens of the grammar that bear some of the names. -/
def TokensNamed (grammar : Grammar) (names : List String) (row : List Symbol) : Prop :=
  ∀ token ∈ row, token ∈ grammar.tokens ∧ token.name ∈ names

/-- The texts of one grammar are those of the other one, with tokens of the names put in freely in
front of the whole input and behind each token. -/
structure PadsTexts (padded plain : Grammar) (users : List Symbol) (names : List String) :
    Prop where
  of_user : ∀ user ∈ users, ∀ text, padded.Generates user text ↔
    ∃ tokens, plain.Generates user tokens ∧
      Padded (fun _ row => padded.TokensNamed names row) tokens text
  of_start : ∀ text, padded.Generates padded.augmentedStart text ↔
    ∃ before tokens body, padded.TokensNamed names before ∧ plain.Generates plain.start tokens ∧
      Padded (fun _ row => padded.TokensNamed names row) tokens body ∧
      text = before ++ (body ++ [padded.eof])

end Grammar

namespace Scheme

variable {scheme : Scheme} {names : List String}

/-- A padding that derives the tokens of some names. -/
def Fills (scheme : Scheme) (grammar : Grammar) (names : List String) : Prop :=
  ∀ token, token ∈ scheme.fillers ↔ token ∈ grammar.tokens ∧ token.name ∈ names

namespace Relates

variable {plain padded : Grammar} (related : scheme.Relates plain padded)
  (fills : scheme.Fills padded names)

include related fills

theorem terminal_row_iff {row : List Symbol} :
    (scheme.Row row ∧ ∀ token ∈ row, token.isTerminal) ↔ padded.TokensNamed names row := by
  constructor
  · intro fitting token member
    rcases fitting with ⟨fits, terminals⟩
    rcases fits.mem member with same | filler
    · have terminal := terminals token member
      rw [same, related.skip_kind] at terminal
      cases terminal
    · exact (fills token).1 filler
  · intro named
    have listed : ∀ token ∈ row, token ∈ scheme.fillers :=
      fun token member => (fills token).2 (named token member)
    exact ⟨.of_fillers listed, fun token member => related.filler_kinds token (listed token member)⟩

theorem terminal_padding_iff {form text : List Symbol} :
    (Padded scheme.Gap form text ∧ ∀ token ∈ text, token.isTerminal) ↔
      (∀ token ∈ form, token.isTerminal) ∧
        Padded (fun _ row => padded.TokensNamed names row) form text := by
  constructor
  · intro fitting
    rcases fitting with ⟨whole, terminals⟩
    refine ⟨fun token member => terminals token (whole.subset member), ?_⟩
    apply whole.weaken
    intro symbol _ row included fits
    cases fits with
    | token _ fits =>
        exact (related.terminal_row_iff fills).1
          ⟨fits, fun token member => terminals token (included member)⟩
    | user _ =>
        intro token member
        cases member
  · intro fitting
    rcases fitting with ⟨terminals, whole⟩
    constructor
    · apply whole.weaken
      intro symbol member row _ named
      exact .token (terminals symbol member) ((related.terminal_row_iff fills).2 named).1
    · apply whole.all _ terminals
      intro _ row named
      exact ((related.terminal_row_iff fills).2 named).2

theorem generates_user_iff {user : Symbol} (member : user ∈ scheme.users) {text : List Symbol} :
    padded.Generates user text ↔ ∃ tokens, plain.Generates user tokens ∧
      Padded (fun _ row => padded.TokensNamed names row) tokens text := by
  constructor
  · intro generated
    rcases generated with ⟨terminals, derivation⟩
    obtain ⟨tokens, derived, whole⟩ := (related.derives_iff member).1 derivation
    rcases (related.terminal_padding_iff fills).1 ⟨whole, terminals⟩ with ⟨own, rows⟩
    exact ⟨tokens, ⟨own, derived⟩, rows⟩
  · intro generated
    rcases generated with ⟨tokens, ⟨own, derived⟩, rows⟩
    rcases (related.terminal_padding_iff fills).2 ⟨own, rows⟩ with ⟨whole, terminals⟩
    exact ⟨terminals, (related.derives_iff member).2 ⟨tokens, derived, whole⟩⟩

theorem generates_start_iff {text : List Symbol} :
    padded.Generates padded.augmentedStart text ↔ ∃ before tokens body,
      padded.TokensNamed names before ∧ plain.Generates plain.start tokens ∧
        Padded (fun _ row => padded.TokensNamed names row) tokens body ∧
        text = before ++ (body ++ [padded.eof]) := by
  rw [related.same_eof]
  constructor
  · intro generated
    rcases generated with ⟨terminals, derivation⟩
    rcases related.padded_augmented_derives_iff.1 derivation with
      rfl | ⟨before, tokens, body, fits, derived, whole, rfl⟩
    · have kind := related.padded_whole.nonterminal_kind
        (related.padded_whole.heads_known padded.startProduction
          (List.mem_append_right _ List.mem_cons_self))
      cases (terminals padded.augmentedStart List.mem_cons_self).symm.trans kind
    · have front := (related.terminal_row_iff fills).1
        ⟨fits, fun token member => terminals token (by simp [member])⟩
      rcases (related.terminal_padding_iff fills).1
        ⟨whole, fun token member => terminals token (by simp [member])⟩ with ⟨own, rows⟩
      exact ⟨before, tokens, body, front, ⟨own, derived⟩, rows, rfl⟩
  · intro generated
    rcases generated with ⟨before, tokens, body, front, ⟨own, derived⟩, rows, rfl⟩
    rcases (related.terminal_row_iff fills).2 front with ⟨fits, frontTerminals⟩
    rcases (related.terminal_padding_iff fills).2 ⟨own, rows⟩ with ⟨whole, bodyTerminals⟩
    refine ⟨?_, related.padded_augmented_derives_iff.2
      (Or.inr ⟨before, tokens, body, fits, derived, whole, rfl⟩)⟩
    intro token member
    rcases List.mem_append.1 member with early | member
    · exact frontTerminals token early
    · rcases List.mem_append.1 member with inside | last
      · exact bodyTerminals token inside
      · rw [List.mem_singleton.1 last]
        exact related.eof_kind

end Relates

end Scheme

namespace Declarations

/-- Implicit tokens pad the texts of the grammar that is built without them, and do nothing else. -/
theorem implicit_tokens_pad_texts {declarations : Declarations} {names : List String}
    {eco : Grammar} (listed : declarations.implicitTokens = some names) (filled : names ≠ [])
    (built : declarations.build .eco = .ok eco) :
    ∃ plain, declarations.withoutImplicitTokens.build .plain = .ok plain ∧
      eco.PadsTexts plain declarations.ruleSymbols names := by
  have implicit : declarations.HasImplicit names := ⟨listed, filled⟩
  obtain ⟨plain, scheme, without, related, users, fills⟩ := implicit.grammars built
  refine ⟨plain, without, ?_, fun text => related.generates_start_iff fills⟩
  intro user member text
  exact related.generates_user_iff fills (users ▸ member)

section Tilde

/-- The only rule bears the name of the implicit rule, mentions an implicit token and may derive
nothing. -/
def tildeDeclarations : Declarations where
  rules := [⟨"~", [⟨[.token "w", .rule "~", .token "a"], none⟩, ⟨[], none⟩]⟩]
  tokens := ["a", "w"]
  implicitTokens := some ["w"]

def tildeEco : Grammar where
  variant := .eco
  tokens := [⟨.terminal, 0, "a"⟩, ⟨.terminal, 1, "w"⟩]
  eof := ⟨.terminal, 2, "$"⟩
  nonterminals := [⟨.nonterminal, 0, "~"⟩, ⟨.nonterminal, 1, "~'"⟩, ⟨.nonterminal, 2, "~''"⟩]
  leading := [
    ⟨0, ⟨.nonterminal, 0, "~"⟩,
      [⟨.terminal, 1, "w"⟩, ⟨.nonterminal, 1, "~'"⟩, ⟨.nonterminal, 0, "~"⟩,
        ⟨.terminal, 0, "a"⟩, ⟨.nonterminal, 1, "~'"⟩], none⟩,
    ⟨1, ⟨.nonterminal, 0, "~"⟩, [], none⟩,
    ⟨2, ⟨.nonterminal, 1, "~'"⟩, [⟨.terminal, 1, "w"⟩, ⟨.nonterminal, 1, "~'"⟩], none⟩,
    ⟨3, ⟨.nonterminal, 1, "~'"⟩, [], none⟩]
  startProduction := ⟨4, ⟨.nonterminal, 2, "~''"⟩,
    [⟨.nonterminal, 1, "~'"⟩, ⟨.nonterminal, 0, "~"⟩, ⟨.terminal, 2, "$"⟩], none⟩
  start := ⟨.nonterminal, 0, "~"⟩
  implicitRule := some ⟨.nonterminal, 1, "~'"⟩
  precedences := ∅
  errorTexts := ∅

/-- Its augmented start is the symbol that is the implicit rule in the other grammar. -/
def tildePlain : Grammar where
  variant := .plain
  tokens := [⟨.terminal, 0, "a"⟩, ⟨.terminal, 1, "w"⟩]
  eof := ⟨.terminal, 2, "$"⟩
  nonterminals := [⟨.nonterminal, 0, "~"⟩, ⟨.nonterminal, 1, "~'"⟩]
  leading := [
    ⟨0, ⟨.nonterminal, 0, "~"⟩,
      [⟨.terminal, 1, "w"⟩, ⟨.nonterminal, 0, "~"⟩, ⟨.terminal, 0, "a"⟩], none⟩,
    ⟨1, ⟨.nonterminal, 0, "~"⟩, [], none⟩]
  startProduction := ⟨2, ⟨.nonterminal, 1, "~'"⟩,
    [⟨.nonterminal, 0, "~"⟩, ⟨.terminal, 2, "$"⟩], none⟩
  start := ⟨.nonterminal, 0, "~"⟩
  implicitRule := none
  precedences := ∅
  errorTexts := ∅

theorem tilde_eco_built : tildeDeclarations.build .eco = .ok tildeEco := by
  rfl

theorem tilde_plain_built :
    tildeDeclarations.withoutImplicitTokens.build .plain = .ok tildePlain := by
  rfl

theorem tilde_texts :
    tildeDeclarations.implicitTokens = some ["w"] ∧ ["w"] ≠ [] ∧
      tildeDeclarations.build .eco = .ok tildeEco ∧
      tildeEco.PadsTexts tildePlain tildeDeclarations.ruleSymbols ["w"] := by
  refine ⟨rfl, by decide, tilde_eco_built, ?_⟩
  obtain ⟨plain, built, padded⟩ := implicit_tokens_pad_texts rfl (by decide) tilde_eco_built
  obtain rfl : tildePlain = plain := Except.ok.inj (tilde_plain_built.symm.trans built)
  exact padded

end Tilde

end Declarations

end GrammarKit
