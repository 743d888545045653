import GrammarKit.Proofs.Build.Lookups

/-!
# Declarations read back from a grammar

Nothing that an author wrote is lost in a grammar. The rules stand in their order under the first
nonterminals, and each production tells its alternative: symbols tell what they were referred to by,
and the implicit rule, which nobody may mention, is passed over. What is left of the productions was
added and is told by the implicit tokens alone. Precedence lines come back level by level, and error
texts token by token.
-/

namespace GrammarKit

set_option autoImplicit false

/-- How an alternative refers to the symbol. -/
def Symbol.reference (symbol : Symbol) : Reference :=
  match symbol.kind with
  | .terminal => .token symbol.name
  | .nonterminal => .rule symbol.name

/-- The production without its number. -/
def Production.clause (production : Production) : Clause :=
  ⟨production.lhs, production.rhs, production.precedence⟩

namespace Grammar

/-- The references that a right-hand side was made from. -/
def referencesOf (grammar : Grammar) (symbols : List Symbol) : List Reference :=
  (symbols.filter fun symbol => grammar.implicitRule ≠ some symbol).map (·.reference)

def alternativeOf (grammar : Grammar) (clause : Clause) : Alternative :=
  ⟨grammar.referencesOf clause.rhs, clause.precedence⟩

def declarationOf (grammar : Grammar) (rule : Rule) : RuleDeclaration :=
  ⟨rule.lhs.name, rule.productions.map fun production => grammar.alternativeOf production.clause⟩

/-- What nobody wrote: the implicit rule with one clause for each of these tokens and an empty one,
and the clause for the whole input. -/
def addedClauses (grammar : Grammar) (tokens : List Symbol) : List Clause :=
  (match grammar.implicitRule with
    | none => []
    | some rule => tokens.map (fun token => ⟨rule, [token, rule], none⟩) ++ [⟨rule, [], none⟩]) ++
    [⟨grammar.augmentedStart, grammar.implicitRule.toList ++ [grammar.start, grammar.eof], none⟩]

/-- The tokens of one level, in order. -/
def rankedAt (grammar : Grammar) (level : Int) : List (String × Associativity) :=
  (grammar.precedences.entries.filter fun entry => entry.2.level = level).map
    fun entry => (entry.1, entry.2.associativity)

structure Restores (grammar : Grammar) (declarations : Declarations) : Prop where
  rules : ∀ (place : Nat) (declared : RuleDeclaration), declarations.rules[place]? = some declared →
    ∃ rule, grammar.rule place = .ok rule ∧ grammar.nonterminal place = .ok rule.lhs ∧
      rule.lhs = ⟨.nonterminal, place, declared.name⟩ ∧ grammar.declarationOf rule = declared
  implicit_rule : grammar.implicitRule.isSome ↔
    grammar.variant = .eco ∧ ∃ token names, declarations.implicitTokens = some (token :: names)
  /-- Productions of the declared rules come first. -/
  productions : ∃ written added tokens, grammar.productions = written ++ added ∧
    (∀ production ∈ written, production.lhs.index < declarations.rules.length) ∧
    (∀ production ∈ added, declarations.rules.length ≤ production.lhs.index) ∧
    (∀ token ∈ tokens, token ∈ grammar.tokens) ∧
    ListsOnce (declarations.implicitTokens.getD []) (tokens.map (·.name)) ∧
    added.map (·.clause) = grammar.addedClauses tokens
  precedences : ∀ (place : Nat) (line : PrecedenceLine),
    declarations.precedenceLines[place]? = some line →
      grammar.rankedAt (place + 1) = line.tokens.map fun token => (token, line.associativity)
  precedences_ranked : ∀ entry ∈ grammar.precedences.entries,
    ∃ place < declarations.precedenceLines.length, entry.2.level = place + 1
  error_texts : ∀ token ∈ grammar.tokens,
    grammar.errorText token = (declarations.errorTexts.find? token.name).getD token.name

end Grammar

theorem clauses_of_numbered (clauses : List Clause) :
    (numberedProductions clauses).map (·.clause) = clauses := by
  simp [numberedProductions, Production.clause, Function.comp_def]

theorem group_of_key {ι κ α : Type} [DecidableEq κ] (key : ι → κ) (group : ι → List α)
    {items : List ι} (apart : (items.map key).Nodup) {item : ι} (member : item ∈ items) :
    (items.flatMap fun other => (group other).map fun part => (key other, part)).filter
        (fun entry => entry.1 = key item) =
      (group item).map fun part => (key item, part) := by
  induction items with
  | nil => cases member
  | cons first rest ih =>
      rw [List.map_cons, List.nodup_cons] at apart
      rw [List.flatMap_cons, List.filter_append, List.filter_map]
      rcases List.mem_cons.1 member with rfl | later
      · -- No later group has the key of the first one.
        have none_later : (rest.flatMap fun other => (group other).map fun part =>
            (key other, part)).filter (fun entry => entry.1 = key item) = [] := by
          rw [List.filter_eq_nil_iff]
          intro entry among same
          obtain ⟨other, listed, inside⟩ := List.mem_flatMap.1 among
          obtain ⟨part, _, rfl⟩ := List.mem_map.1 inside
          have equal : key other = key item := by simpa using same
          exact apart.1 (equal ▸ List.mem_map_of_mem listed)
        rw [none_later, List.append_nil]
        simp [Function.comp_def]
      · have differs : key first ≠ key item := by
          intro equal
          exact apart.1 (equal ▸ List.mem_map_of_mem later)
        rw [ih apart.2 later]
        simp [Function.comp_def, differs]

namespace Declarations

variable {declarations : Declarations} {variant : Variant} {parts : Parts}

section Alternatives

variable {precedences : Register String Precedence}

theorem implicit_rule_index {symbol : Symbol}
    (implicit : declarations.implicitRule? variant = some symbol) :
    symbol.kind = .nonterminal ∧ symbol.index = declarations.rules.length := by
  obtain rfl := implicit_rule_eq implicit
  exact ⟨rfl, rfl⟩

theorem rule_symbol_index {symbol : Symbol} (member : symbol ∈ declarations.ruleSymbols) :
    symbol.kind = .nonterminal ∧ 0 ≤ symbol.index ∧ symbol.index < declarations.rules.length := by
  obtain ⟨place, inside, rfl⟩ := List.getElem_of_mem member
  obtain ⟨kind, index⟩ :=
    numbered_table_item (numbered_symbols_numbered .nonterminal declarations.ruleNames) inside
  rw [length_rule_symbols] at inside
  change declarations.ruleSymbols[place].kind = _ at kind
  change declarations.ruleSymbols[place].index = _ at index
  exact ⟨kind, by omega, by omega⟩

theorem rule_not_implicit {symbol : Symbol} (member : symbol ∈ declarations.ruleSymbols) :
    declarations.implicitRule? variant ≠ some symbol := by
  intro implicit
  have last := (implicit_rule_index implicit).2
  have below := (rule_symbol_index member).2.2
  omega

theorem token_kind {symbol : Symbol}
    (member : symbol ∈ numberedSymbols .terminal declarations.tokenNames) :
    symbol.kind = .terminal := by
  obtain ⟨place, inside, rfl⟩ := List.getElem_of_mem member
  exact (numbered_table_item (numbered_symbols_numbered .terminal _) inside).1

theorem token_not_implicit {symbol : Symbol}
    (member : symbol ∈ numberedSymbols .terminal declarations.tokenNames) :
    declarations.implicitRule? variant ≠ some symbol := by
  intro implicit
  have nonterminal := (implicit_rule_index implicit).1
  rw [token_kind member] at nonterminal
  cases nonterminal

theorem reference_restored {user : String} {reference : Reference} {symbols : List Symbol}
    (resolved : (declarations.scope variant precedences).resolve user reference = .ok symbols) :
    (declarations.grammarOf variant parts).referencesOf symbols = [reference] := by
  unfold Grammar.referencesOf
  change (symbols.filter fun symbol =>
    declarations.implicitRule? variant ≠ some symbol).map _ = _
  cases reference with
  | rule name =>
      obtain ⟨symbol, asked, equal⟩ := except_bind_eq_ok_iff.1 resolved
      cases equal
      have found := require_eq_ok_iff.1 asked
      have member : symbol ∈ declarations.ruleSymbols := List.mem_of_find?_eq_some found
      have named : symbol.name = name := by simpa using List.find?_some found
      simp [rule_not_implicit member, Symbol.reference, (rule_symbol_index member).1, named]
  | token name =>
      obtain ⟨symbol, asked, equal⟩ := except_bind_eq_ok_iff.1 resolved
      cases equal
      have found := require_eq_ok_iff.1 asked
      have member : symbol ∈ numberedSymbols .terminal declarations.tokenNames :=
        Scope.token_mem found
      have named : symbol.name = name := by simpa using List.find?_some found
      have rest : (declarations.scope variant precedences).implicitRule.toList.filter
          (fun other => declarations.implicitRule? variant ≠ some other) = [] := by
        rw [List.filter_eq_nil_iff]
        intro other implicit
        have rule : declarations.implicitRule? variant = some other := Option.mem_toList.1 implicit
        simp [rule]
      rw [List.filter_cons_of_pos (by simpa using token_not_implicit member), rest]
      simp [Symbol.reference, token_kind member, named]
  | stray text => cases resolved

theorem references_restored {user : String} {references : List Reference}
    {symbols : List (List Symbol)}
    (resolved : references.mapM ((declarations.scope variant precedences).resolve user) =
      .ok symbols) :
    (declarations.grammarOf variant parts).referencesOf symbols.flatten = references := by
  have told : symbols.map (declarations.grammarOf variant parts).referencesOf =
      references.map fun reference => [reference] :=
    except_map_m_told (fun reference group found => reference_restored found) resolved
  calc (declarations.grammarOf variant parts).referencesOf symbols.flatten
      = (symbols.map (declarations.grammarOf variant parts).referencesOf).flatten := by
        unfold Grammar.referencesOf
        rw [List.filter_flatten, List.map_flatten, List.map_map]
        rfl
    _ = references := by
        rw [told, ← List.flatMap_def]
        simp

theorem clause_restored {lhs : Symbol} {alternative : Alternative} {clause : Clause}
    (made : (declarations.scope variant precedences).clause lhs alternative = .ok clause) :
    (clause.lhs, (declarations.grammarOf variant parts).alternativeOf clause) =
      (lhs, alternative) := by
  obtain ⟨symbols, resolved, made⟩ := except_bind_eq_ok_iff.1 made
  obtain ⟨_, _, equal⟩ := except_bind_eq_ok_iff.1 made
  cases equal
  simp [Grammar.alternativeOf, references_restored resolved]

end Alternatives

theorem added_clauses (declarations : Declarations) (variant : Variant) (parts : Parts) :
    (declarations.grammarOf variant parts).addedClauses parts.implicitTokens =
      implicitClauses (declarations.implicitRule? variant) parts.implicitTokens ++
        [(declarations.grammarOf variant parts).startProduction.clause] := by
  change (match declarations.implicitRule? variant with | none => _ | some rule => _) ++ _ = _
  cases declarations.implicitRule? variant <;> rfl

theorem clauses_of_grammar (declarations : Declarations) (variant : Variant) (parts : Parts) :
    (declarations.grammarOf variant parts).productions.map (·.clause) =
      parts.clauses ++
        (declarations.grammarOf variant parts).addedClauses parts.implicitTokens := by
  rw [added_clauses, ← List.append_assoc, Grammar.productions, List.map_append, List.map_singleton]
  congr 1
  exact clauses_of_numbered _

theorem added_clause_index {clause : Clause} (member : clause ∈
      (declarations.grammarOf variant parts).addedClauses parts.implicitTokens) :
    declarations.rules.length ≤ clause.lhs.index := by
  rw [added_clauses] at member
  rcases List.mem_append.1 member with implicit | last
  · cases rule : declarations.implicitRule? variant with
    | none =>
        rw [rule] at implicit
        cases implicit
    | some symbol =>
        have index := (implicit_rule_index rule).2
        have head : clause.lhs = symbol := by
          rw [rule] at implicit
          rcases List.mem_append.1 implicit with listed | final
          · obtain ⟨_, _, rfl⟩ := List.mem_map.1 listed
            rfl
          · rw [List.mem_singleton.1 final]
        exact Int.le_of_eq (head ▸ index.symm)
  · rw [List.mem_singleton.1 last]
    change (declarations.rules.length : Int) ≤ ((declarations.rules.length + _ : Nat) : Int)
    omega

theorem rule_symbol_nodup (declarations : Declarations) : declarations.ruleSymbols.Nodup :=
  (numbered_symbols_numbered .nonterminal declarations.ruleNames).nodup

namespace Accepted

variable (accepted : declarations.Accepted variant parts)

include accepted

theorem clauses_restored :
    parts.clauses.map (fun clause =>
        (clause.lhs, (declarations.grammarOf variant parts).alternativeOf clause)) =
      (declarations.rules.zip declarations.ruleSymbols).flatMap fun pair =>
        pair.1.alternatives.map fun alternative => (pair.2, alternative) :=
  except_map_m_restored (fun _ _ made => clause_restored made) accepted.clauses

/-- The productions of a declared rule tell its alternatives, one each and in order. -/
theorem alternatives_restored {declared : RuleDeclaration} {symbol : Symbol}
    (paired : (declared, symbol) ∈ declarations.rules.zip declarations.ruleSymbols) :
    ((declarations.grammarOf variant parts).productions.filter fun production =>
        production.lhs = symbol).map (fun production =>
          (declarations.grammarOf variant parts).alternativeOf production.clause) =
      declared.alternatives := by
  have member := (List.of_mem_zip paired).2
  have below := (rule_symbol_index member).2.2
  have symbols : ((declarations.rules.zip declarations.ruleSymbols).map (·.2)).Nodup := by
    rw [List.map_snd_zip (Nat.le_of_eq (length_rule_symbols declarations))]
    exact rule_symbol_nodup declarations
  have own := group_of_key (fun pair : RuleDeclaration × Symbol => pair.2)
    (fun pair => pair.1.alternatives) symbols paired
  rw [← accepted.clauses_restored, List.filter_map] at own
  have none_added : ((declarations.grammarOf variant parts).addedClauses
      parts.implicitTokens).filter (fun clause => clause.lhs = symbol) = [] := by
    rw [List.filter_eq_nil_iff]
    intro clause added same
    have head : clause.lhs = symbol := by simpa using same
    have beyond := added_clause_index added
    rw [head] at beyond
    omega
  have clauses : ((declarations.grammarOf variant parts).productions.filter fun production =>
      production.lhs = symbol).map (·.clause) =
        parts.clauses.filter fun clause => clause.lhs = symbol := by
    have all := congrArg (List.filter fun clause => clause.lhs = symbol)
      (clauses_of_grammar declarations variant parts)
    rw [List.filter_append, none_added, List.append_nil, List.filter_map] at all
    exact all
  have answered := congrArg (List.map Prod.snd) own
  rw [List.map_map, List.map_map] at answered
  calc ((declarations.grammarOf variant parts).productions.filter fun production =>
        production.lhs = symbol).map (fun production =>
          (declarations.grammarOf variant parts).alternativeOf production.clause)
      = (((declarations.grammarOf variant parts).productions.filter fun production =>
          production.lhs = symbol).map (·.clause)).map
            (declarations.grammarOf variant parts).alternativeOf := by
        rw [List.map_map]
        rfl
    _ = (parts.clauses.filter fun clause => clause.lhs = symbol).map
          (declarations.grammarOf variant parts).alternativeOf := by rw [clauses]
    _ = declared.alternatives := answered.trans (List.map_id _)

theorem rule_restored {place : Nat} {declared : RuleDeclaration}
    (listed : declarations.rules[place]? = some declared) :
    ∃ rule, (declarations.grammarOf variant parts).rule place = .ok rule ∧
      (declarations.grammarOf variant parts).nonterminal place = .ok rule.lhs ∧
      rule.lhs = ⟨.nonterminal, place, declared.name⟩ ∧
      (declarations.grammarOf variant parts).declarationOf rule = declared := by
  obtain ⟨inside, rfl⟩ := List.getElem?_eq_some_iff.1 listed
  have known : place < declarations.ruleSymbols.length := by
    rw [length_rule_symbols]
    exact inside
  have symbol : declarations.ruleSymbols[place] =
      ⟨.nonterminal, place, declarations.rules[place].name⟩ := by
    simp [ruleSymbols, numberedSymbols, ruleNames]
  have paired : (declarations.rules[place], declarations.ruleSymbols[place]) ∈
      declarations.rules.zip declarations.ruleSymbols :=
    List.mem_iff_getElem.2 ⟨place, by simp [inside], by simp⟩
  have named : (declarations.grammarOf variant parts).nonterminals[place]? =
      some declarations.ruleSymbols[place] := by
    change (declarations.ruleSymbols ++ _ ++ _)[place]? = _
    rw [List.append_assoc, List.getElem?_append_left known, List.getElem?_eq_getElem known]
  obtain ⟨present, entry⟩ := List.getElem?_eq_some_iff.1 named
  have ruled : place < (declarations.grammarOf variant parts).rules.length := by
    rw [Grammar.length_rules]
    exact present
  refine ⟨(declarations.grammarOf variant parts).rules[place],
    require_eq_ok_iff.2 (item_of_nat ruled), ?_, ?_, ?_⟩
  · apply require_eq_ok_iff.2
    rw [item_of_nat present]
    simp [accepted.well_formed.rules_eq]
  · simp [accepted.well_formed.rules_eq, entry, symbol]
  · simp [accepted.well_formed.rules_eq, entry, Grammar.declarationOf,
      accepted.alternatives_restored paired]
    simp [symbol]

theorem implicit_tokens_listed :
    ListsOnce (declarations.implicitTokens.getD []) (parts.implicitTokens.map (·.name)) := by
  have listed := accepted.implicitTokens
  unfold implicitTokenSymbols at listed
  split at listed
  · rename_i undeclared
    have nothing : parts.implicitTokens = [] := (Except.ok.inj listed).symm
    rw [undeclared, nothing]
    exact distinct_lists_once []
  · cases listed
  · rename_i names declared
    obtain ⟨tokens, asked, equal⟩ := except_bind_eq_ok_iff.1 listed
    have same : tokens.eraseDups = parts.implicitTokens := Except.ok.inj equal
    rw [declared, ← same, ← (implicit_tokens_once _ _ asked).2]
    exact distinct_lists_once names

theorem productions_divided :
    ∃ written added tokens,
      (declarations.grammarOf variant parts).productions = written ++ added ∧
      (∀ production ∈ written, production.lhs.index < declarations.rules.length) ∧
      (∀ production ∈ added, declarations.rules.length ≤ production.lhs.index) ∧
      (∀ token ∈ tokens, token ∈ (declarations.grammarOf variant parts).tokens) ∧
      ListsOnce (declarations.implicitTokens.getD []) (tokens.map (·.name)) ∧
      added.map (·.clause) = (declarations.grammarOf variant parts).addedClauses tokens := by
  have clauses := clauses_of_grammar declarations variant parts
  have written := congrArg (List.take parts.clauses.length) clauses
  have added := congrArg (List.drop parts.clauses.length) clauses
  rw [List.take_left, ← List.map_take] at written
  rw [List.drop_left, ← List.map_drop] at added
  refine ⟨_, _, parts.implicitTokens, (List.take_append_drop parts.clauses.length _).symm, ?_, ?_,
    fun _ member => accepted.implicit_token_known member, accepted.implicit_tokens_listed, added⟩
  · intro production member
    have clause := List.mem_map_of_mem (f := Production.clause) member
    rw [written] at clause
    exact (rule_symbol_index (accepted.clause_known clause).1).2.2
  · intro production member
    have clause := List.mem_map_of_mem (f := Production.clause) member
    rw [added] at clause
    exact added_clause_index clause

theorem error_texts_rekeyed :
    ∃ number : String → Int, parts.errorTexts = declarations.errorTexts.rekeyed number ∧
      (∀ name ∈ declarations.errorTexts.keys, name ∈ declarations.tokenNames) ∧
      ∀ token ∈ numberedSymbols .terminal declarations.tokenNames,
        number token.name = token.index := by
  let look (name : String) : Option Symbol :=
    (declarations.scope variant parts.precedences).token? name
  obtain ⟨pairs, asked, filled⟩ := except_bind_eq_ok_iff.1 accepted.errorTexts
  refine ⟨fun name => ((look name).map (·.index)).getD 0, ?_, ?_, ?_⟩
  · have told : pairs.map id = declarations.errorTexts.entries.map
        fun entry => (((look entry.1).map (·.index)).getD 0, entry.2) := by
      apply except_map_m_told _ asked
      intro entry answer answered
      obtain ⟨token, found, equal⟩ := except_bind_eq_ok_iff.1 answered
      have known : look entry.1 = some token := require_eq_ok_iff.1 found
      cases equal
      simp [known]
    rw [List.map_id] at told
    rw [← Except.ok.inj filled, told]
    rfl
  · intro name key
    obtain ⟨entry, member, rfl⟩ := List.mem_map.1 key
    obtain ⟨answer, _, answered⟩ := except_map_m_answered asked entry member
    obtain ⟨token, found, _⟩ := except_bind_eq_ok_iff.1 answered
    exact mem_token_names.2 (token_found.1 (by rw [require_eq_ok_iff.1 found]; rfl))
  · intro token member
    have found : look token.name = some token := found_by_name token_symbol_names_nodup member
    simp [found]

theorem error_text_restored {token : Symbol}
    (member : token ∈ (declarations.grammarOf variant parts).tokens) :
    (declarations.grammarOf variant parts).errorText token =
      (declarations.errorTexts.find? token.name).getD token.name := by
  obtain ⟨number, rekeyed, declared, numbered⟩ := accepted.error_texts_rekeyed
  have known : ∀ name ∈ token.name :: declarations.errorTexts.keys,
      ∃ symbol ∈ numberedSymbols .terminal declarations.tokenNames, symbol.name = name := by
    intro name listed
    rcases List.mem_cons.1 listed with rfl | key
    · exact ⟨token, member, rfl⟩
    · have named := declared name key
      rw [← names_of_numbered .terminal declarations.tokenNames] at named
      exact List.mem_map.1 named
  have apart : ∀ left ∈ token.name :: declarations.errorTexts.keys,
      ∀ right ∈ token.name :: declarations.errorTexts.keys,
        number left = number right → left = right := by
    intro left leftListed right rightListed same
    obtain ⟨first, firstMember, rfl⟩ := known left leftListed
    obtain ⟨second, secondMember, rfl⟩ := known right rightListed
    rw [numbered first firstMember, numbered second secondMember] at same
    have equal : first = second := accepted.well_formed.terminal_of_index
      (List.mem_append_left _ firstMember) (List.mem_append_left _ secondMember) same
    rw [equal]
  have found := Register.find_rekeyed apart
  rw [← rekeyed, numbered token member] at found
  unfold Grammar.errorText
  exact congrArg (fun text => Option.getD text token.name) found

end Accepted

theorem implicit_rule_iff :
    (declarations.implicitRule? variant).isSome ↔
      variant = .eco ∧ ∃ token names, declarations.implicitTokens = some (token :: names) := by
  unfold implicitRule?
  cases variant with
  | plain => simp [hasImplicitRule]
  | eco =>
      rcases tokens : declarations.implicitTokens with _ | _ | ⟨token, names⟩ <;>
        simp [hasImplicitRule, tokens]

section Levels

theorem pairs_by_level (declarations : Declarations) :
    (declarations.precedencePairs.map fun pair =>
        (pair.2.level, (pair.1, pair.2.associativity))) =
      (declarations.precedenceLines.zipIdx 1).flatMap fun numbered =>
        (numbered.1.tokens.map fun token => (token, numbered.1.associativity)).map
          fun ranked => ((numbered.2 : Int), ranked) := by
  simp [precedencePairs, List.map_flatMap, Function.comp_def]

theorem numbered_lines_nodup (declarations : Declarations) :
    ((declarations.precedenceLines.zipIdx 1).map fun numbered => (numbered.2 : Int)).Nodup := by
  have places : ((declarations.precedenceLines.zipIdx 1).map (·.2)).Nodup := by
    rw [List.zipIdx_map_snd]
    exact List.nodup_range' ..
  have levels := places.map (f := fun place : Nat => (place : Int)) fun _ _ => Int.ofNat.inj
  rw [List.map_map] at levels
  exact levels

variable {grammar : Grammar} (built : declarations.build variant = .ok grammar)

include built

theorem line_restored {place : Nat} {line : PrecedenceLine}
    (listed : declarations.precedenceLines[place]? = some line) :
    grammar.rankedAt (place + 1) = line.tokens.map fun token => (token, line.associativity) := by
  have numbered : (line, place + 1) ∈ declarations.precedenceLines.zipIdx 1 :=
    List.mk_mem_zipIdx_iff_le_and_getElem?_sub.2 ⟨by omega, by simpa using listed⟩
  have own := group_of_key (fun numbered : PrecedenceLine × Nat => (numbered.2 : Int))
    (fun numbered => numbered.1.tokens.map fun token => (token, numbered.1.associativity))
    (numbered_lines_nodup declarations) numbered
  rw [← pairs_by_level, List.filter_map] at own
  have ranked := congrArg (List.map Prod.snd) own
  rw [List.map_map, List.map_map] at ranked
  unfold Grammar.rankedAt
  rw [ranked_in_order built]
  exact ranked.trans (List.map_id _)

theorem level_of_line {entry : String × Precedence} (member : entry ∈ grammar.precedences.entries) :
    ∃ place < declarations.precedenceLines.length, entry.2.level = place + 1 := by
  rw [ranked_in_order built] at member
  obtain ⟨place, line, listed, _, rank⟩ := mem_precedence_pairs.1 member
  exact ⟨place, (List.getElem?_eq_some_iff.1 listed).1, by rw [rank]⟩

end Levels

/-- An accepted grammar tells all that its author declared, and what was added to it. -/
theorem built_grammar_restores {grammar : Grammar}
    (built : declarations.build variant = .ok grammar) : grammar.Restores declarations := by
  have levels := @line_restored _ _ _ built
  have ranked := @level_of_line _ _ _ built
  obtain ⟨parts, accepted, rfl⟩ := build_eq_ok_iff.1 built
  exact {
    rules := fun _ _ listed => accepted.rule_restored listed
    implicit_rule := implicit_rule_iff
    productions := accepted.productions_divided
    precedences := fun _ _ listed => levels listed
    precedences_ranked := fun _ member => ranked member
    error_texts := fun _ member => accepted.error_text_restored member
  }

theorem clashing_restored :
    clashingDeclarations.build .eco = .ok clashing ∧ clashing.Restores clashingDeclarations :=
  ⟨clashing_built, built_grammar_restores clashing_built⟩

end Declarations

end GrammarKit
