import GrammarKit.Proofs.Report.Exact

/-!
# Symbols found by their names

One name map serves terminals and nonterminals alike, and a nonterminal hides a terminal of its
name. The checks on declarations keep tokens and rules apart, and the two synthetic nonterminals take
names that are free, so each symbol of a built grammar is found under its name. The end of the input
is the exception: no token may be named like it, but a rule may, and then the rule is found in its
place.
-/

namespace GrammarKit

set_option autoImplicit false

section Unreserved

theorem behind_apostrophe_ne (front : String) : front ++ "'" ≠ endOfInput := by
  intro same
  have characters := congrArg String.toList same
  rw [String.toList_append] at characters
  have last := congrArg List.getLast? characters
  rw [show "'".toList = ['\''] from rfl, List.getLast?_append_of_ne_nil _ (by simp)] at last
  exact absurd last (by decide)

theorem primed_cases (base : String) (count : Nat) :
    primed base count = base ∨ ∃ front, primed base count = front ++ "'" := by
  induction count generalizing base with
  | zero => exact Or.inl rfl
  | succ count ih =>
      rw [primed]
      rcases ih (base ++ "'") with same | longer
      · exact Or.inr ⟨base, same⟩
      · exact Or.inr longer

theorem fresh_name_unreserved (taken : List String) {base : String}
    (unreserved : base ≠ endOfInput) : freshName taken base ≠ endOfInput := by
  rcases fresh_name_is_least taken base with ⟨count, same, _⟩
  rw [same]
  rcases primed_cases base count with equal | ⟨front, equal⟩
  · rw [equal]
    exact unreserved
  · rw [equal]
    exact behind_apostrophe_ne front

end Unreserved

namespace Grammar

variable {grammar : Grammar}

/-- Searched from behind, a list whose names differ still has each symbol under its name. -/
theorem last_by_name {symbols : List Symbol} (apart : (symbols.map (·.name)).Nodup)
    {symbol : Symbol} (member : symbol ∈ symbols) :
    (symbols.reverse.find? fun known => known.name = symbol.name) = some symbol := by
  have backwards : (symbols.reverse.map (·.name)).Nodup := by
    rw [List.map_reverse]
    exact List.nodup_reverse.2 apart
  exact found_by_name backwards (List.mem_reverse.2 member)

theorem symbol_of_nonterminal (apart : (grammar.nonterminals.map (·.name)).Nodup)
    {symbol : Symbol} (member : symbol ∈ grammar.nonterminals) :
    grammar.symbol symbol.name = .ok symbol := by
  unfold Grammar.symbol
  rw [List.reverse_append, List.find?_append, last_by_name apart member]
  rfl

theorem symbol_of_apart
    (apart : ((grammar.terminals ++ grammar.nonterminals).map (·.name)).Nodup) {symbol : Symbol}
    (known : grammar.Knows symbol) : grammar.symbol symbol.name = .ok symbol := by
  unfold Grammar.symbol
  rw [last_by_name apart (List.mem_append.2 known)]
  rfl

end Grammar

namespace Declarations

variable {declarations : Declarations} {variant : Variant} {grammar : Grammar}

theorem implicit_rule_unreserved {symbol : Symbol}
    (implicit : declarations.implicitRule? variant = some symbol) : symbol.name ≠ endOfInput := by
  obtain rfl := implicit_rule_eq implicit
  exact fresh_name_unreserved _ (by decide)

theorem augmented_unreserved (declarations : Declarations) (variant : Variant) (parts : Parts) :
    (declarations.augmentedSymbol variant parts).name ≠ endOfInput :=
  fresh_name_unreserved _ (behind_apostrophe_ne _)

theorem end_name_borne_iff (built : declarations.build variant = .ok grammar) :
    (∃ nonterminal ∈ grammar.nonterminals, nonterminal.name = endOfInput) ↔
      endOfInput ∈ declarations.ruleNames := by
  rcases build_eq_ok_iff.1 built with ⟨parts, _, rfl⟩
  have borne : (∃ nonterminal ∈ (declarations.grammarOf variant parts).nonterminals,
      nonterminal.name = endOfInput) ↔
      endOfInput ∈ (declarations.grammarOf variant parts).nonterminals.map (·.name) := by
    rw [List.mem_map]
  rw [borne, nonterminal_names]
  constructor
  · intro listed
    rcases List.mem_append.1 listed with earlier | last
    · rcases List.mem_append.1 earlier with rule | implicit
      · exact rule
      · rcases List.mem_map.1 implicit with ⟨symbol, found, named⟩
        exact absurd named (implicit_rule_unreserved (Option.mem_toList.1 found))
    · exact absurd (List.mem_singleton.1 last).symm (augmented_unreserved declarations variant parts)
  · intro rule
    exact List.mem_append_left _ (List.mem_append_left _ rule)

/-- All names differ unless a rule bears the name of the end of the input. -/
theorem names_apart_iff (built : declarations.build variant = .ok grammar) :
    ((grammar.terminals ++ grammar.nonterminals).map (·.name)).Nodup ↔
      endOfInput ∉ declarations.ruleNames := by
  rcases build_eq_ok_iff.1 built with ⟨parts, accepted, same⟩
  have represented : grammar.Represents declarations := same ▸ accepted.represents
  have last : grammar.eof ∈ grammar.terminals := List.mem_append_right _ (List.mem_singleton_self _)
  have named : grammar.eof.name = endOfInput := by rw [← same]; rfl
  rw [List.map_append, List.nodup_append, ← end_name_borne_iff built]
  constructor
  · intro apart borne
    rcases borne with ⟨nonterminal, member, reserved⟩
    exact apart.2.2 _ (List.mem_map_of_mem last) _ (List.mem_map_of_mem member)
      (named.trans reserved.symm)
  · intro unborne
    refine ⟨terminal_names_distinct_of_build built, represented.nonterminal_names_distinct, ?_⟩
    intro left leftListed right rightListed equal
    rcases List.mem_map.1 leftListed with ⟨terminal, among, rfl⟩
    rcases List.mem_map.1 rightListed with ⟨nonterminal, member, rfl⟩
    by_cases token : terminal = grammar.eof
    · exact unborne ⟨nonterminal, member, by rw [← equal, token, named]⟩
    · exact represented.names_apart nonterminal member terminal among token equal.symm

/-- Each symbol other than the end of the input is found under its name, the synthetic ones
included. The end of the input is found, and all names differ, exactly when no rule bears its
name. -/
theorem names_identify_symbols (built : declarations.build variant = .ok grammar) :
    (∀ symbol, grammar.Knows symbol → symbol ≠ grammar.eof →
      grammar.symbol symbol.name = .ok symbol) ∧
    (∀ synthetic ∈ grammar.implicitRule.toList ++ [grammar.augmentedStart],
      grammar.symbol synthetic.name = .ok synthetic) ∧
    (grammar.symbol grammar.eof.name = .ok grammar.eof ↔ endOfInput ∉ declarations.ruleNames) ∧
    (((grammar.terminals ++ grammar.nonterminals).map (·.name)).Nodup ↔
      endOfInput ∉ declarations.ruleNames) := by
  rcases build_eq_ok_iff.1 built with ⟨parts, accepted, same⟩
  have represented : grammar.Represents declarations := same ▸ accepted.represents
  have whole := well_formed_of_build built
  have apart := represented.nonterminal_names_distinct
  have last : grammar.eof ∈ grammar.terminals := List.mem_append_right _ (List.mem_singleton_self _)
  refine ⟨?_, ?_, ?_, names_apart_iff built⟩
  · intro symbol known token
    rcases known with terminal | nonterminal
    · exact (tells_names_of_build built).symbol_of_name terminal token
    · exact Grammar.symbol_of_nonterminal apart nonterminal
  · intro synthetic listed
    apply Grammar.symbol_of_nonterminal apart
    rw [← same] at listed ⊢
    change synthetic ∈ declarations.ruleSymbols ++ _ ++ _
    rw [List.append_assoc]
    exact List.mem_append_right _ listed
  · rw [← names_apart_iff built]
    constructor
    · intro found
      rw [names_apart_iff built, ← end_name_borne_iff built]
      intro borne
      rcases borne with ⟨nonterminal, member, reserved⟩
      have named : grammar.eof.name = endOfInput := by rw [← same]; rfl
      have hidden := Grammar.symbol_of_nonterminal apart member
      rw [reserved, ← named, found] at hidden
      have equal := Except.ok.inj hidden
      have kind := whole.nonterminal_kind member
      rw [← equal, whole.terminal_kind last] at kind
      cases kind
    · intro distinct
      exact Grammar.symbol_of_apart distinct (Or.inl last)

theorem clashing_names_found :
    clashingDeclarations.build .eco = .ok clashing ∧
    clashing.symbol "~'" = .ok ⟨.nonterminal, 4, "~'"⟩ ∧
    clashing.symbol "S''" = .ok ⟨.nonterminal, 5, "S''"⟩ ∧
    clashing.symbol "+" = .ok ⟨.terminal, 2, "+"⟩ ∧
    ¬((clashing.terminals ++ clashing.nonterminals).map (·.name)).Nodup := by
  have found := names_identify_symbols clashing_built
  refine ⟨clashing_built, found.2.1 ⟨.nonterminal, 4, "~'"⟩ (by decide),
    found.2.1 ⟨.nonterminal, 5, "S''"⟩ (by decide),
    found.1 ⟨.terminal, 2, "+"⟩ (by decide) (by decide), ?_⟩
  rw [found.2.2.2]
  decide

section Hidden

/-- A rule named like the end of the input. -/
def maskedDeclarations : Declarations where
  rules := [⟨"S", [⟨[.token "a"], none⟩]⟩, ⟨"$", [⟨[.token "a"], none⟩]⟩]
  tokens := ["a"]

def masked : Grammar where
  variant := .plain
  tokens := [⟨.terminal, 0, "a"⟩]
  eof := ⟨.terminal, 1, "$"⟩
  nonterminals := [⟨.nonterminal, 0, "S"⟩, ⟨.nonterminal, 1, "$"⟩, ⟨.nonterminal, 2, "S'"⟩]
  leading := [
    ⟨0, ⟨.nonterminal, 0, "S"⟩, [⟨.terminal, 0, "a"⟩], none⟩,
    ⟨1, ⟨.nonterminal, 1, "$"⟩, [⟨.terminal, 0, "a"⟩], none⟩]
  startProduction :=
    ⟨2, ⟨.nonterminal, 2, "S'"⟩, [⟨.nonterminal, 0, "S"⟩, ⟨.terminal, 1, "$"⟩], none⟩
  start := ⟨.nonterminal, 0, "S"⟩
  implicitRule := none
  precedences := ∅
  errorTexts := ∅

/-- The rule is found where the end of the input is asked for by its name. -/
theorem end_of_input_hidden :
    maskedDeclarations.build .plain = .ok masked ∧ masked.Knows masked.eof ∧
      masked.symbol masked.eof.name = .ok ⟨.nonterminal, 1, "$"⟩ ∧
      masked.symbol masked.eof.name ≠ .ok masked.eof := by
  refine ⟨rfl, Or.inl ?_, rfl, ?_⟩
  · exact List.mem_append_right _ (List.mem_singleton_self _)
  · intro same
    cases same

end Hidden

end Declarations

end GrammarKit
