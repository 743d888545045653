import GrammarKit.Proofs.Build.ReadBack
import GrammarKit.Proofs.Renaming.Names

/-!
# Grammars from renamed declarations

Construction asks of two names only whether they are equal, and of one whether it is that of the end
of the input. So declarations under other names that are told apart in the same way pass the same
checks and fail for the same reason. Synthetic symbols are the exception: their names are made up
anew, and what is made up depends on the names in use. But nobody can refer to them, so that the
grammar is the same up to names nevertheless.
-/

namespace GrammarKit

set_option autoImplicit false

namespace Declarations

variable {rename : String → String} {declarations : Declarations} {variant : Variant}

section Stages

theorem rule_names_renamed (rename : String → String) (declarations : Declarations) :
    (declarations.renamed rename).ruleNames = declarations.ruleNames.map rename := by
  simp [ruleNames, renamed, RuleDeclaration.renamed, Function.comp_def]

theorem rule_symbols_renamed (rename : String → String) (declarations : Declarations) :
    (declarations.renamed rename).ruleSymbols =
      declarations.ruleSymbols.map (·.renamed (.byName rename)) := by
  unfold ruleSymbols
  rw [rule_names_renamed, numbered_symbols_renamed]

theorem length_rules_renamed (rename : String → String) (declarations : Declarations) :
    (declarations.renamed rename).rules.length = declarations.rules.length :=
  List.length_map _

theorem precedence_pairs_renamed (rename : String → String) (declarations : Declarations) :
    (declarations.renamed rename).precedencePairs =
      declarations.precedencePairs.map fun pair => (rename pair.1, pair.2) := by
  simp [precedencePairs, renamed, List.zipIdx_map, List.flatMap_map, List.map_flatMap,
    Function.comp_def]

variable (injective : Function.Injective rename)

include injective

theorem token_names_renamed :
    (declarations.renamed rename).tokenNames = declarations.tokenNames.map rename := by
  unfold tokenNames
  rw [← distinct_renamed injective]
  simp [renamed, List.map_flatMap, List.flatMap_map]

theorem check_rules_renamed :
    SameOutcome (fun _ _ => True) declarations.checkRules
      (declarations.renamed rename).checkRules := by
  have none_given : (declarations.renamed rename).rules.isEmpty = declarations.rules.isEmpty :=
    List.isEmpty_map
  have again : repeated? [] (declarations.ruleNames.map rename) =
      (repeated? [] declarations.ruleNames).map rename := repeated_renamed injective [] _
  unfold checkRules
  rw [none_given, rule_names_renamed, again]
  split
  · exact .rejected rfl
  · cases repeated? [] declarations.ruleNames with
    | none => exact .answered trivial
    | some name => exact .rejected rfl

theorem start_symbol_renamed :
    SameOutcome (fun start other => other = start.renamed (.byName rename))
      declarations.startSymbol (declarations.renamed rename).startSymbol := by
  have starts : distinct (declarations.renamed rename).starts =
      (distinct declarations.starts).map rename := distinct_renamed injective _
  have named : ∀ symbol ∈ declarations.ruleSymbols, symbol.NamedBy (.byName rename) :=
    fun _ _ => rfl
  unfold startSymbol
  rw [starts, rule_symbols_renamed]
  match distinct declarations.starts with
  | [] =>
      rw [List.map_nil, List.head?_map]
      exact .of_require rfl
  | [name] => exact require_renamed injective named name rfl
  | first :: second :: others => exact .rejected rfl

theorem check_token_renamed (ends : rename endOfInput = endOfInput) (name : String) :
    SameOutcome (fun _ _ => True) (declarations.checkToken name)
      ((declarations.renamed rename).checkToken (rename name)) := by
  have reserved : rename name = endOfInput ↔ name = endOfInput := by
    conv_lhs => rw [← ends]
    exact injective.eq_iff
  unfold checkToken
  rw [rule_names_renamed]
  simp only [reserved, mem_renamed injective]
  split
  · exact .rejected rfl
  · split
    · exact .rejected rfl
    · exact .answered trivial

theorem check_tokens_renamed (ends : rename endOfInput = endOfInput) :
    SameOutcome (fun _ _ => True) (declarations.tokenNames.forM declarations.checkToken)
      ((declarations.renamed rename).tokenNames.forM
        (declarations.renamed rename).checkToken) := by
  rw [token_names_renamed injective]
  exact SameOutcome.for_m fun name _ => check_token_renamed injective ends name

theorem precedences_renamed :
    SameOutcome (fun register other => other = register.rekeyed rename)
      declarations.precedences (declarations.renamed rename).precedences := by
  have keys : (declarations.renamed rename).precedencePairs.map (·.1) =
      (declarations.precedencePairs.map (·.1)).map rename := by
    rw [precedence_pairs_renamed, List.map_map, List.map_map]
    rfl
  have again : repeated? [] ((declarations.precedencePairs.map (·.1)).map rename) =
      (repeated? [] (declarations.precedencePairs.map (·.1))).map rename :=
    repeated_renamed injective [] _
  unfold precedences
  rw [keys, again]
  cases repeated : repeated? [] (declarations.precedencePairs.map (·.1)) with
  | some token => exact .rejected rfl
  | none =>
      refine .answered ?_
      have once := (repeated_none_iff.1 repeated).1
      unfold Register.rekeyed
      rw [Register.entries_of_pairs once, precedence_pairs_renamed]

end Stages

section Synthetic

/-- The symbols that nobody declared. -/
def syntheticSymbols (declarations : Declarations) (variant : Variant) (start : Symbol) :
    List Symbol :=
  (declarations.implicitRule? variant).toList ++
    [declarations.augmentedStart start (declarations.implicitRule? variant)]

/-- Symbols with the numbers of synthetic ones go by the names that are made up for these, and all
other symbols by their own names. -/
def naming (rename : String → String) (declarations : Declarations) (variant : Variant)
    (start : Symbol) : Naming where
  symbol symbol :=
    let synthetic := (declarations.renamed rename).syntheticSymbols variant
      (start.renamed (.byName rename))
    match synthetic.find? fun other => other.kind = symbol.kind ∧ other.index = symbol.index with
    | some other => other.name
    | none => rename symbol.name
  declared := rename

variable (start : Symbol)

theorem synthetic_symbol_index {symbol : Symbol}
    (member : symbol ∈ declarations.syntheticSymbols variant start) :
    symbol.kind = .nonterminal ∧ declarations.rules.length ≤ symbol.index := by
  rcases List.mem_append.1 member with implicit | augmented
  · have index := implicit_rule_index (Option.mem_toList.1 implicit)
    exact ⟨index.1, Int.le_of_eq index.2.symm⟩
  · rw [List.mem_singleton.1 augmented]
    exact ⟨rfl, Int.ofNat_le.2 (Nat.le_add_right _ _)⟩

/-- What has no number of a synthetic symbol goes by its own name. -/
theorem named_of_apart {symbol : Symbol}
    (apart : symbol.kind = .terminal ∨ symbol.index < declarations.rules.length) :
    symbol.NamedBy (declarations.naming rename variant start) := by
  have none_found : ((declarations.renamed rename).syntheticSymbols variant
      (start.renamed (.byName rename))).find? (fun other =>
        other.kind = symbol.kind ∧ other.index = symbol.index) = none := by
    rw [List.find?_eq_none]
    intro other member
    have index := synthetic_symbol_index _ member
    rw [length_rules_renamed] at index
    rw [decide_eq_true_eq]
    rintro ⟨kind, same⟩
    rcases apart with terminal | below
    · rw [terminal, index.1] at kind
      cases kind
    · omega
  unfold Symbol.NamedBy naming
  dsimp only
  rw [none_found]

variable (rename declarations variant)

theorem has_implicit_rule_renamed :
    (declarations.renamed rename).hasImplicitRule variant =
      declarations.hasImplicitRule variant := by
  unfold hasImplicitRule renamed
  cases variant with
  | plain => rfl
  | eco =>
      match declarations.implicitTokens with
      | none => rfl
      | some [] => rfl
      | some (_ :: _) => rfl

theorem implicit_rule_renamed :
    (declarations.renamed rename).implicitRule? variant =
      (declarations.implicitRule? variant).map
        (·.renamed (declarations.naming rename variant start)) := by
  have same := has_implicit_rule_renamed rename declarations variant
  unfold implicitRule?
  rw [same]
  split
  · rename_i implicit
    rw [implicit] at same
    simp [Symbol.renamed, naming, syntheticSymbols, implicitRule?, same, length_rules_renamed]
  · rfl

theorem augmented_start_renamed :
    (declarations.renamed rename).augmentedStart (start.renamed (.byName rename))
        ((declarations.renamed rename).implicitRule? variant) =
      (declarations.augmentedStart start (declarations.implicitRule? variant)).renamed
        (declarations.naming rename variant start) := by
  have rule := implicit_rule_renamed rename declarations variant start
  cases implicit : declarations.implicitRule? variant with
  | none =>
      rw [implicit, Option.map_none] at rule
      simp [augmentedStart, rule, Symbol.renamed, naming, syntheticSymbols, length_rules_renamed]
  | some symbol =>
      have index := (implicit_rule_index implicit).2
      rw [implicit, Option.map_some] at rule
      generalize there : symbol.renamed (declarations.naming rename variant start) = other at rule
      have same : other.index = symbol.index := there ▸ rfl
      have passed : other.index ≠ declarations.rules.length + 1 := by omega
      simp [augmentedStart, rule, Symbol.renamed, naming, syntheticSymbols, length_rules_renamed,
        List.find?_cons, passed]

end Synthetic

section Scopes

variable {naming : Naming} {precedences : Register String Precedence}
  (named : (declarations.scope variant precedences).NamedBy naming)

include named

theorem clauses_renamed :
    SameOutcome (fun clauses results => results = clauses.map (·.renamed naming))
      (declarations.clauses (declarations.scope variant precedences))
      ((declarations.renamed naming.declared).clauses
        ((declarations.scope variant precedences).renamed naming)) := by
  have symbols : (declarations.renamed naming.declared).ruleSymbols =
      declarations.ruleSymbols.map (·.renamed naming) := by
    rw [rule_symbols_renamed]
    exact renamed_by_name named.rules
  have alternatives : (((declarations.renamed naming.declared).rules.zip
        (declarations.renamed naming.declared).ruleSymbols).flatMap fun pair =>
          pair.1.alternatives.map fun alternative => (pair.2, alternative)) =
      ((declarations.rules.zip declarations.ruleSymbols).flatMap fun pair =>
        pair.1.alternatives.map fun alternative => (pair.2, alternative)).map
          (Prod.map (·.renamed naming) (·.renamed naming.declared)) := by
    rw [symbols]
    simp [renamed, List.zip_map, List.flatMap_map, List.map_flatMap, RuleDeclaration.renamed,
      Function.comp_def]
  unfold clauses
  change SameOutcome _ _ (List.mapM _ (List.flatMap (fun pair : RuleDeclaration × Symbol =>
    pair.1.alternatives.map fun alternative => (pair.2, alternative)) _))
  rw [alternatives]
  exact SameOutcome.map_m fun pair _ => Scope.clause_renamed named pair.1 pair.2

theorem numbered_error_texts_renamed :
    SameOutcome (fun register other => other = register)
      (declarations.numberedErrorTexts (declarations.scope variant precedences))
      ((declarations.renamed naming.declared).numberedErrorTexts
        ((declarations.scope variant precedences).renamed naming)) := by
  have entries : (declarations.renamed naming.declared).errorTexts.entries =
      declarations.errorTexts.entries.map fun entry => (naming.declared entry.1, entry.2) :=
    Register.entries_rekeyed fun _ _ _ _ same => named.injective same
  unfold numberedErrorTexts
  rw [entries]
  refine (SameOutcome.map_m fun entry _ =>
    (?_ : SameOutcome (fun pair other => other = id pair) _ _)).bind ?_
  · refine (Scope.require_token_renamed named entry.1 ?_).bind ?_
    · rfl
    · rintro token _ _ rfl
      exact .answered rfl
  · rintro pairs _ _ rfl
    rw [List.map_id]
    exact .answered rfl

theorem implicit_token_symbols_renamed :
    SameOutcome (fun tokens results => results = tokens.map (·.renamed naming))
      (declarations.implicitTokenSymbols variant (declarations.scope variant precedences))
      ((declarations.renamed naming.declared).implicitTokenSymbols variant
        ((declarations.scope variant precedences).renamed naming)) := by
  unfold implicitTokenSymbols renamed
  dsimp only
  cases declarations.implicitTokens with
  | none => exact .answered rfl
  | some names =>
      cases variant with
      | plain => exact .rejected rfl
      | eco =>
          refine (SameOutcome.map_m fun name _ =>
            Scope.require_token_renamed named name ?_).bind ?_
          · rfl
          · rintro symbols _ asked rfl
            refine .answered (erase_dups_map ?_)
            have known : ∀ symbol ∈ symbols, symbol.NamedBy naming := by
              intro symbol member
              obtain ⟨_, _, found⟩ := except_map_m_mem asked symbol member
              exact named.tokens symbol (List.mem_of_find?_eq_some (require_eq_ok_iff.1 found))
            intro left leftMember right rightMember same
            exact renamed_injective named.injective (known left leftMember)
              (known right rightMember) same

end Scopes

section Built

def Parts.renamed (naming : Naming) (parts : Parts) : Parts where
  start := parts.start.renamed naming
  precedences := parts.precedences.rekeyed naming.declared
  clauses := parts.clauses.map (·.renamed naming)
  errorTexts := parts.errorTexts
  implicitTokens := parts.implicitTokens.map (·.renamed naming)

theorem start_renamed {start : Symbol} (declared : start ∈ declarations.ruleSymbols) :
    start.renamed (.byName rename) = start.renamed (declarations.naming rename variant start) :=
  (named_of_apart start (.inr (rule_symbol_index declared).2.2)).renamed_by_name

variable (injective : Function.Injective rename)

include injective

theorem scope_named (start : Symbol) (precedences : Register String Precedence) :
    (declarations.scope variant precedences).NamedBy
      (declarations.naming rename variant start) where
  injective := injective
  rules := fun _ member => named_of_apart start (.inr (rule_symbol_index member).2.2)
  tokens := fun _ member => named_of_apart start (.inl (token_kind member))

theorem scope_renamed (start : Symbol) (precedences : Register String Precedence) :
    (declarations.renamed rename).scope variant (precedences.rekeyed rename) =
      (declarations.scope variant precedences).renamed
        (declarations.naming rename variant start) := by
  have named : (declarations.scope variant precedences).NamedBy
      (declarations.naming rename variant start) := scope_named injective start precedences
  have rules : (declarations.renamed rename).ruleSymbols = _ :=
    (rule_symbols_renamed rename declarations).trans (renamed_by_name named.rules)
  have tokens : numberedSymbols .terminal (declarations.renamed rename).tokenNames =
      (numberedSymbols .terminal declarations.tokenNames).map
        (·.renamed (declarations.naming rename variant start)) := by
    rw [token_names_renamed injective, numbered_symbols_renamed]
    exact renamed_by_name named.tokens
  unfold scope
  rw [rules, tokens, implicit_rule_renamed rename declarations variant start]
  rfl

variable (ends : rename endOfInput = endOfInput)

include ends

theorem eof_symbol_renamed (start : Symbol) :
    (declarations.renamed rename).eofSymbol =
      declarations.eofSymbol.renamed (declarations.naming rename variant start) := by
  have named : declarations.eofSymbol.NamedBy (declarations.naming rename variant start) :=
    named_of_apart start (.inl rfl)
  rw [← named.renamed_by_name]
  unfold eofSymbol
  rw [token_names_renamed injective, numbered_symbols_renamed, List.length_map]
  unfold Symbol.renamed Naming.byName
  exact congrArg _ ends.symm

theorem grammar_of_renamed (parts : Parts) (declared : parts.start ∈ declarations.ruleSymbols) :
    (declarations.renamed rename).grammarOf variant
        (parts.renamed (declarations.naming rename variant parts.start)) =
      (declarations.grammarOf variant parts).renamed
        (declarations.naming rename variant parts.start) := by
  let naming := declarations.naming rename variant parts.start
  have scopes : (declarations.renamed rename).scope variant _ = Scope.renamed naming _ :=
    scope_renamed injective parts.start parts.precedences
  have rules : (declarations.renamed rename).ruleSymbols =
      declarations.ruleSymbols.map (·.renamed naming) := congrArg Scope.rules scopes
  have tokens : numberedSymbols .terminal (declarations.renamed rename).tokenNames =
      (numberedSymbols .terminal declarations.tokenNames).map (·.renamed naming) :=
    congrArg Scope.tokens scopes
  have eof : (declarations.renamed rename).eofSymbol = declarations.eofSymbol.renamed naming :=
    eof_symbol_renamed injective ends parts.start
  have implicitRule : (declarations.renamed rename).implicitRule? variant =
      (declarations.implicitRule? variant).map (·.renamed naming) :=
    implicit_rule_renamed rename declarations variant parts.start
  have augmented : (declarations.renamed rename).augmentedSymbol variant (parts.renamed naming) =
      (declarations.augmentedSymbol variant parts).renamed naming := by
    have same := augmented_start_renamed rename declarations variant parts.start
    have begins : parts.start.renamed (.byName rename) = parts.start.renamed naming :=
      start_renamed declared
    rw [begins] at same
    exact same
  have leading : (declarations.renamed rename).leadingClauses variant (parts.renamed naming) =
      (declarations.leadingClauses variant parts).map (·.renamed naming) := by
    unfold leadingClauses
    rw [implicitRule, List.map_append, ← implicit_clauses_renamed]
    rfl
  unfold grammarOf
  rw [rules, tokens, eof, implicitRule, augmented, leading, numbered_productions_renamed]
  simp [Grammar.renamed, Production.renamed, Parts.renamed, Option.toList_map, naming]

/-- Renamed declarations become the renamed grammar, or fail as they failed before. -/
theorem build_renamed (declarations : Declarations) (variant : Variant) :
    SameOutcome (fun grammar other => ∃ start,
        other = grammar.renamed (declarations.naming rename variant start))
      (declarations.build variant) ((declarations.renamed rename).build variant) := by
  unfold build
  refine (check_rules_renamed injective).bind ?_
  rintro _ _ _ _
  refine (start_symbol_renamed injective).bind ?_
  -- From here on it is known how the synthetic symbols go, since their names depend on the start.
  rintro start _ started rfl
  refine (check_tokens_renamed injective ends).bind ?_
  rintro _ _ _ _
  refine (precedences_renamed injective).bind ?_
  rintro precedences _ _ rfl
  have named : (declarations.scope variant precedences).NamedBy _ :=
    scope_named injective start precedences
  have sameClauses := clauses_renamed named
  have sameTexts := numbered_error_texts_renamed named
  have sameTokens := implicit_token_symbols_renamed named
  rw [← scope_renamed injective] at sameClauses sameTexts sameTokens
  refine sameClauses.bind ?_
  rintro clauses _ _ rfl
  refine sameTexts.bind ?_
  rintro _ errorTexts _ rfl
  refine sameTokens.bind ?_
  rintro implicitTokens _ _ rfl
  refine .answered ⟨start, ?_⟩
  have declared := start_symbol_declared started
  have same : (declarations.renamed rename).grammarOf variant _ = _ := grammar_of_renamed injective
    ends ⟨start, precedences, clauses, errorTexts, implicitTokens⟩ declared
  unfold Parts.renamed at same
  rw [← start_renamed declared] at same
  exact same

end Built

end Declarations

end GrammarKit
