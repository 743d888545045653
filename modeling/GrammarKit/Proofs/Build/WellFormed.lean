import GrammarKit.Grammar.WellFormed
import GrammarKit.Proofs.Build.Accepted

/-!
# Built grammars are well-formed

A grammar built from declarations numbers its tables by place, and its productions mention nothing
but entries of the tables: rules and tokens that were looked up by name, the implicit rule, the end
of the input and the augmented start.
-/

namespace GrammarKit

set_option autoImplicit false

section Numbering

theorem NumberedTable.append_one {kind : SymbolKind} {table : List Symbol} {symbol : Symbol}
    (numbered : NumberedTable kind table) (ofKind : symbol.kind = kind)
    (last : symbol.index = table.length) : NumberedTable kind (table ++ [symbol]) := by
  intro pair member
  rcases pair with ⟨entry, place⟩
  rw [List.zipIdx_append, List.mem_append] at member
  rcases member with earlier | final
  · exact numbered _ earlier
  · simp only [List.zipIdx_singleton, List.mem_singleton, Prod.mk.injEq] at final
    obtain ⟨rfl, rfl⟩ := final
    exact ⟨ofKind, by simpa using last⟩

theorem numbered_symbols_numbered (kind : SymbolKind) (names : List String) :
    NumberedTable kind (numberedSymbols kind names) := by
  intro pair member
  rcases pair with ⟨entry, place⟩
  rw [List.mk_mem_zipIdx_iff_getElem?] at member
  simp only [numberedSymbols, List.getElem?_map, List.getElem?_zipIdx] at member
  obtain ⟨⟨name, index⟩, found, rfl⟩ := Option.map_eq_some_iff.1 member
  obtain ⟨_, _, equal⟩ := Option.map_eq_some_iff.1 found
  cases equal
  exact ⟨rfl, by simp⟩

@[simp]
theorem length_numbered_symbols (kind : SymbolKind) (names : List String) :
    (numberedSymbols kind names).length = names.length := by
  simp [numberedSymbols]

@[simp]
theorem length_numbered_productions (clauses : List Clause) :
    (numberedProductions clauses).length = clauses.length := by
  simp [numberedProductions]

theorem numbered_production_mem {clauses : List Clause} {production : Production}
    (member : production ∈ numberedProductions clauses) :
    ∃ clause ∈ clauses, production.lhs = clause.lhs ∧ production.rhs = clause.rhs := by
  obtain ⟨⟨clause, index⟩, among, rfl⟩ := List.mem_map.1 member
  exact ⟨clause, List.fst_mem_of_mem_zipIdx among, rfl, rfl⟩

theorem numbered_production_lt {clauses : List Clause} {production : Production}
    (member : production ∈ numberedProductions clauses) : production.index < clauses.length := by
  obtain ⟨⟨clause, index⟩, among, rfl⟩ := List.mem_map.1 member
  have inside := List.snd_lt_of_mem_zipIdx among
  change (index : Int) < clauses.length
  omega

theorem numbered_productions_nodup (clauses : List Clause) :
    (numberedProductions clauses).Nodup := by
  have places : clauses.zipIdx.Pairwise fun left right => left.2 ≠ right.2 := by
    apply List.pairwise_map.1
    rw [List.zipIdx_map_snd]
    exact List.nodup_range' ..
  apply List.Pairwise.map _ _ places
  intro left right apart same
  apply apart
  exact Int.ofNat.inj (congrArg Production.index same)

end Numbering

namespace Scope

variable {scope : Scope}

/-- What a clause of this scope may be made of. -/
def Offers (scope : Scope) (symbol : Symbol) : Prop :=
  symbol ∈ scope.rules ∨ symbol ∈ scope.tokens ∨ scope.implicitRule = some symbol

theorem token_mem {name : String} {symbol : Symbol} (found : scope.token? name = some symbol) :
    symbol ∈ scope.tokens := List.mem_of_find?_eq_some found

theorem resolve_offered {user : String} {reference : Reference} {symbols : List Symbol}
    (resolved : scope.resolve user reference = .ok symbols) :
    ∀ symbol ∈ symbols, scope.Offers symbol := by
  cases reference with
  | rule name =>
      obtain ⟨found, asked, equal⟩ := except_bind_eq_ok_iff.1 resolved
      cases equal
      intro symbol member
      obtain rfl := List.mem_singleton.1 member
      exact Or.inl (List.mem_of_find?_eq_some (require_eq_ok_iff.1 asked))
  | token name =>
      obtain ⟨found, asked, equal⟩ := except_bind_eq_ok_iff.1 resolved
      cases equal
      intro symbol member
      rcases List.mem_cons.1 member with rfl | implicit
      · exact Or.inr (Or.inl (token_mem (require_eq_ok_iff.1 asked)))
      · exact Or.inr (Or.inr (Option.mem_toList.1 implicit))
  | stray text => cases resolved

theorem clause_offered {lhs : Symbol} {alternative : Alternative} {clause : Clause}
    (made : scope.clause lhs alternative = .ok clause) :
    clause.lhs = lhs ∧ ∀ symbol ∈ clause.rhs, scope.Offers symbol := by
  obtain ⟨parts, resolved, made⟩ := except_bind_eq_ok_iff.1 made
  obtain ⟨_, _, equal⟩ := except_bind_eq_ok_iff.1 made
  cases equal
  refine ⟨rfl, ?_⟩
  intro symbol member
  obtain ⟨symbols, among, inside⟩ := List.mem_flatten.1 member
  obtain ⟨_, _, answered⟩ := except_map_m_mem resolved symbols among
  exact resolve_offered answered symbol inside

end Scope

namespace Declarations

variable {declarations : Declarations} {variant : Variant} {parts : Parts}

@[simp]
theorem length_rule_symbols (declarations : Declarations) :
    declarations.ruleSymbols.length = declarations.rules.length := by
  simp [ruleSymbols, ruleNames]

theorem start_symbol_declared {start : Symbol} (started : declarations.startSymbol = .ok start) :
    start ∈ declarations.ruleSymbols := by
  unfold startSymbol at started
  split at started
  · exact List.mem_of_head? (require_eq_ok_iff.1 started)
  · exact List.mem_of_find?_eq_some (require_eq_ok_iff.1 started)
  · cases started

namespace Accepted

variable (accepted : declarations.Accepted variant parts)

include accepted

theorem start_known : parts.start ∈ declarations.ruleSymbols :=
  start_symbol_declared accepted.start

theorem clause_known {clause : Clause} (member : clause ∈ parts.clauses) :
    clause.lhs ∈ declarations.ruleSymbols ∧
      ∀ symbol ∈ clause.rhs, (declarations.scope variant parts.precedences).Offers symbol := by
  obtain ⟨⟨lhs, alternative⟩, among, made⟩ := except_map_m_mem accepted.clauses clause member
  obtain ⟨⟨rule, head⟩, paired, inside⟩ := List.mem_flatMap.1 among
  obtain ⟨_, _, equal⟩ := List.mem_map.1 inside
  cases equal
  obtain ⟨same, offered⟩ := Scope.clause_offered made
  rw [same]
  exact ⟨(List.of_mem_zip paired).2, offered⟩

theorem implicit_token_known {token : Symbol} (member : token ∈ parts.implicitTokens) :
    token ∈ numberedSymbols .terminal declarations.tokenNames := by
  have listed := accepted.implicitTokens
  unfold implicitTokenSymbols at listed
  split at listed
  · have nothing : parts.implicitTokens = [] := (Except.ok.inj listed).symm
    rw [nothing] at member
    cases member
  · cases listed
  · obtain ⟨symbols, asked, equal⟩ := except_bind_eq_ok_iff.1 listed
    have same : symbols.eraseDups = parts.implicitTokens := Except.ok.inj equal
    rw [← same] at member
    obtain ⟨_, _, found⟩ := except_map_m_mem asked token (List.mem_eraseDups.1 member)
    exact Scope.token_mem (require_eq_ok_iff.1 found)

theorem leading_clause_known {clause : Clause}
    (member : clause ∈ declarations.leadingClauses variant parts) :
    (clause.lhs ∈ declarations.ruleSymbols ∨
      declarations.implicitRule? variant = some clause.lhs) ∧
      ∀ symbol ∈ clause.rhs, (declarations.scope variant parts.precedences).Offers symbol := by
  rcases List.mem_append.1 member with own | implicit
  · obtain ⟨head, body⟩ := accepted.clause_known own
    exact ⟨Or.inl head, body⟩
  · cases rule : declarations.implicitRule? variant with
    | none =>
        rw [rule] at implicit
        cases implicit
    | some symbol =>
        rw [rule] at implicit
        rcases List.mem_append.1 implicit with looped | final
        · obtain ⟨token, listed, rfl⟩ := List.mem_map.1 looped
          refine ⟨Or.inr rfl, ?_⟩
          intro other among
          rcases List.mem_cons.1 among with rfl | among
          · exact Or.inr (Or.inl (accepted.implicit_token_known listed))
          · obtain rfl := List.mem_singleton.1 among
            exact Or.inr (Or.inr rule)
        · obtain rfl := List.mem_singleton.1 final
          exact ⟨Or.inr rfl, by simp⟩

end Accepted

section Tables

variable (declarations : Declarations) (variant : Variant) (parts : Parts)

theorem grammar_terminals_numbered :
    NumberedTable .terminal (declarations.grammarOf variant parts).terminals :=
  (numbered_symbols_numbered .terminal declarations.tokenNames).append_one rfl rfl

theorem grammar_nonterminals_numbered :
    NumberedTable .nonterminal (declarations.grammarOf variant parts).nonterminals := by
  have rules := numbered_symbols_numbered .nonterminal declarations.ruleNames
  have size := length_rule_symbols declarations
  unfold ruleSymbols at size
  unfold grammarOf augmentedSymbol augmentedStart implicitRule? ruleSymbols
  by_cases implicit : declarations.hasImplicitRule variant
  · rw [if_pos implicit]
    simp only [Option.toList_some, List.map_cons, List.map_nil]
    apply (rules.append_one rfl _).append_one rfl
    · simp [size]
    · simp [ruleNames]
  · rw [if_neg implicit]
    simp only [Option.toList_none, List.map_nil, List.append_nil]
    apply rules.append_one rfl
    simp [size]

variable {declarations variant parts}

theorem offered_known {precedences : Register String Precedence} {symbol : Symbol}
    (offered : (declarations.scope variant precedences).Offers symbol) :
    (declarations.grammarOf variant parts).Knows symbol := by
  rcases offered with rule | token | implicit
  · exact Or.inr (by simp [grammarOf, show symbol ∈ declarations.ruleSymbols from rule])
  · exact Or.inl (List.mem_append_left _ token)
  · exact Or.inr (by
      simp [grammarOf, show declarations.implicitRule? variant = some symbol from implicit])

end Tables

theorem Accepted.well_formed (accepted : declarations.Accepted variant parts) :
    (declarations.grammarOf variant parts).WellFormed where
  terminals_numbered := grammar_terminals_numbered declarations variant parts
  nonterminals_numbered := grammar_nonterminals_numbered declarations variant parts
  start_known := by
    have known := accepted.start_known
    simp [grammarOf, known]
  heads_known := by
    intro production member
    rcases List.mem_append.1 member with leading | last
    · obtain ⟨clause, among, head, _⟩ := numbered_production_mem leading
      rw [head]
      rcases (accepted.leading_clause_known among).1 with rule | implicit
      · simp [grammarOf, rule]
      · simp [grammarOf, implicit]
    · obtain rfl := List.mem_singleton.1 last
      simp [grammarOf]
  bodies_known := by
    intro production member symbol occurs
    rcases List.mem_append.1 member with leading | last
    · obtain ⟨clause, among, _, body⟩ := numbered_production_mem leading
      rw [body] at occurs
      exact offered_known ((accepted.leading_clause_known among).2 symbol occurs)
    · obtain rfl := List.mem_singleton.1 last
      rcases List.mem_append.1 occurs with implicit | occurs
      · exact Or.inr (by simp [grammarOf, Option.mem_toList.1 implicit])
      · rcases List.mem_cons.1 occurs with rfl | occurs
        · have known := accepted.start_known
          exact Or.inr (by simp [grammarOf, known])
        · obtain rfl := List.mem_singleton.1 occurs
          exact Or.inl (by simp [grammarOf, Grammar.terminals])

theorem well_formed_of_build {grammar : Grammar}
    (built : declarations.build variant = .ok grammar) : grammar.WellFormed := by
  obtain ⟨parts, accepted, rfl⟩ := build_eq_ok_iff.1 built
  exact accepted.well_formed

/-- The last production derives the start symbol and the end of the input, with implicit tokens in
front. -/
theorem start_production_of_build {grammar : Grammar}
    (built : declarations.build variant = .ok grammar) :
    grammar.startProduction.rhs =
      grammar.implicitRule.toList ++ [grammar.start, grammar.eof] := by
  obtain ⟨parts, _, rfl⟩ := build_eq_ok_iff.1 built
  rfl

theorem productions_nodup_of_build {grammar : Grammar}
    (built : declarations.build variant = .ok grammar) : grammar.productions.Nodup := by
  obtain ⟨parts, _, rfl⟩ := build_eq_ok_iff.1 built
  apply List.nodup_append.2
  refine ⟨numbered_productions_nodup _, by simp, ?_⟩
  intro production leading other last same
  obtain rfl := List.mem_singleton.1 last
  subst same
  have below := numbered_production_lt leading
  simp [grammarOf] at below

end Declarations

end GrammarKit
