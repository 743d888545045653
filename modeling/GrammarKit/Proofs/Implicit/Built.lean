import GrammarKit.Proofs.Build.Represented
import GrammarKit.Proofs.Implicit.Simulation

/-!
# The implicit rule of declarations

Declarations with implicit tokens that are accepted would be accepted without them as well. Both
grammars number the tokens, the declared nonterminals and their productions alike. In the one with
implicit tokens the implicit rule has been woven into each production, and its own productions come
behind all others.
-/

namespace GrammarKit

set_option autoImplicit false

section Numbering

/-- Productions that are numbered on from `start`. -/
def productionsFrom (start : Nat) (clauses : List Clause) : List Production :=
  (clauses.zipIdx start).map fun (clause, index) =>
    ⟨index, clause.lhs, clause.rhs, clause.precedence⟩

theorem numbered_productions_append (left right : List Clause) :
    numberedProductions (left ++ right) =
      numberedProductions left ++ productionsFrom left.length right := by
  simp [numberedProductions, productionsFrom, List.zipIdx_append]

theorem production_from_mem {start : Nat} {clauses : List Clause} {production : Production}
    (member : production ∈ productionsFrom start clauses) :
    ∃ clause ∈ clauses, production.lhs = clause.lhs ∧ production.rhs = clause.rhs := by
  obtain ⟨⟨clause, index⟩, among, rfl⟩ := List.mem_map.1 member
  exact ⟨clause, List.fst_mem_of_mem_zipIdx among, rfl, rfl⟩

theorem production_from_of_clause {start : Nat} {clauses : List Clause} {clause : Clause}
    (member : clause ∈ clauses) :
    ∃ production ∈ productionsFrom start clauses, production.rhs = clause.rhs := by
  obtain ⟨place, inside, rfl⟩ := List.getElem_of_mem member
  refine ⟨⟨start + place, clauses[place].lhs, clauses[place].rhs, clauses[place].precedence⟩,
    ?_, rfl⟩
  apply List.mem_map.2
  refine ⟨(clauses[place], start + place), ?_, rfl⟩
  exact List.mk_add_mem_zipIdx_iff_getElem?.2 (by simp [inside])

end Numbering

theorem symbol_of_name {kind : SymbolKind} {names : List String} (apart : names.Nodup)
    {left right : Symbol} (leftMember : left ∈ numberedSymbols kind names)
    (rightMember : right ∈ numberedSymbols kind names) (same : left.name = right.name) :
    left = right := by
  rw [← names_of_numbered kind names] at apart
  exact List.inj_on_of_nodup_map apart leftMember rightMember same

namespace Scheme

variable {scheme : Scheme}

def weaveClause (scheme : Scheme) (clause : Clause) : Clause :=
  { clause with rhs := scheme.weave clause.rhs }

theorem weave_flatten (scheme : Scheme) (forms : List (List Symbol)) :
    scheme.weave forms.flatten = (forms.map scheme.weave).flatten := by
  induction forms with
  | nil => rfl
  | cons form forms ih => simp [ih]

theorem numbered_woven (clauses : List Clause) :
    numberedProductions (clauses.map scheme.weaveClause) =
      (numberedProductions clauses).map scheme.weaveProduction := by
  simp [numberedProductions, List.zipIdx_map, weaveClause, weaveProduction, Function.comp_def]

end Scheme

namespace Declarations

def withoutImplicitTokens (declarations : Declarations) : Declarations :=
  { declarations with implicitTokens := none }

/-- The nonterminal that derives the implicit tokens, if there are any. -/
def skipSymbol (declarations : Declarations) : Symbol :=
  ⟨.nonterminal, declarations.rules.length,
    freshName (declarations.ruleNames ++ declarations.tokenNames) implicitRuleBase⟩

def scheme (declarations : Declarations) (parts : Parts) : Scheme where
  users := declarations.ruleSymbols
  skip := declarations.skipSymbol
  loops := productionsFrom parts.clauses.length
    (implicitClauses (some declarations.skipSymbol) parts.implicitTokens)
  fillers := parts.implicitTokens

/-- Implicit tokens are declared, and there is at least one of them. -/
structure HasImplicit (declarations : Declarations) (names : List String) : Prop where
  listed : declarations.implicitTokens = some names
  filled : names ≠ []

variable {declarations : Declarations} {names : List String} {parts : Parts}

theorem HasImplicit.rule (implicit : declarations.HasImplicit names) :
    declarations.implicitRule? .eco = some declarations.skipSymbol := by
  have present : declarations.hasImplicitRule .eco := by
    cases names with
    | nil => exact absurd rfl implicit.filled
    | cons name rest => simp [hasImplicitRule, implicit.listed]
  rw [implicitRule?, if_pos present]
  rfl

theorem rule_symbol_kind {symbol : Symbol} (member : symbol ∈ declarations.ruleSymbols) :
    symbol.isTerminal = false := by
  obtain ⟨_, _, rfl⟩ := List.mem_map.1 member
  rfl

theorem token_symbol_kind {symbol : Symbol}
    (member : symbol ∈ numberedSymbols .terminal declarations.tokenNames) :
    symbol.isTerminal := by
  obtain ⟨_, _, rfl⟩ := List.mem_map.1 member
  rfl

theorem loop_clause {clause : Clause} (member : clause ∈
    implicitClauses (some declarations.skipSymbol) parts.implicitTokens) :
    clause.lhs = declarations.skipSymbol ∧ (declarations.scheme parts).Row clause.rhs := by
  rcases List.mem_append.1 member with looped | final
  · obtain ⟨token, listed, rfl⟩ := List.mem_map.1 looped
    exact ⟨rfl, .token listed .more⟩
  · obtain rfl := List.mem_singleton.1 final
    exact ⟨rfl, .done⟩

theorem HasImplicit.skip_apart (implicit : declarations.HasImplicit names) :
    declarations.skipSymbol ∉ declarations.ruleSymbols := by
  intro member
  apply (implicit_rule_name implicit.rule).1
  rw [← names_of_numbered .nonterminal declarations.ruleNames]
  exact List.mem_map_of_mem member

section Clauses

variable (implicit : declarations.HasImplicit names) (parts : Parts)
  (precedences : Register String Precedence)

include implicit

theorem HasImplicit.resolve (user : String) (reference : Reference) :
    (declarations.scope .eco precedences).resolve user reference =
      ((declarations.withoutImplicitTokens.scope .plain precedences).resolve user
        reference).map (declarations.scheme parts).weave := by
  cases reference with
  | rule name =>
      change (require (declarations.ruleSymbols.find? _) _ >>= fun symbol => _) =
        Except.map _ (require (declarations.ruleSymbols.find? _) _ >>= fun symbol => _)
      cases found : declarations.ruleSymbols.find? (fun symbol => symbol.name = name) with
      | none => rfl
      | some symbol =>
          have kind := rule_symbol_kind (List.mem_of_find?_eq_some found)
          have woven : (declarations.scheme parts).weave [symbol] = [symbol] :=
            Scheme.weave_nonterminal kind []
          exact congrArg Except.ok woven.symm
  | token name =>
      change (require ((numberedSymbols .terminal declarations.tokenNames).find? _) _ >>=
          fun symbol => pure (symbol :: (declarations.implicitRule? .eco).toList)) =
        Except.map _ (require ((numberedSymbols .terminal declarations.tokenNames).find? _) _ >>=
          fun symbol => _)
      rw [implicit.rule]
      cases found : (numberedSymbols .terminal declarations.tokenNames).find?
          (fun symbol => symbol.name = name) with
      | none => rfl
      | some symbol =>
          have kind := token_symbol_kind (List.mem_of_find?_eq_some found)
          have woven : (declarations.scheme parts).weave [symbol] =
              [symbol, declarations.skipSymbol] := Scheme.weave_terminal kind []
          exact congrArg Except.ok woven.symm
  | stray text => rfl

theorem HasImplicit.clause (lhs : Symbol) (alternative : Alternative) :
    (declarations.scope .eco precedences).clause lhs alternative =
      ((declarations.withoutImplicitTokens.scope .plain precedences).clause lhs
        alternative).map (declarations.scheme parts).weaveClause := by
  have resolved : alternative.references.mapM
      ((declarations.scope .eco precedences).resolve lhs.name) =
        (alternative.references.mapM ((declarations.withoutImplicitTokens.scope .plain
          precedences).resolve lhs.name)).map (List.map (declarations.scheme parts).weave) :=
    except_map_m_map fun reference _ => implicit.resolve parts precedences lhs.name reference
  unfold Scope.clause
  rw [resolved]
  cases alternative.references.mapM
      ((declarations.withoutImplicitTokens.scope .plain precedences).resolve lhs.name) with
  | error fault => rfl
  | ok forms =>
      change (Scope.checkPrecedence _ alternative.precedence >>= fun _ => _) =
        Except.map _ (Scope.checkPrecedence _ alternative.precedence >>= fun _ => _)
      have same : (declarations.scope .eco precedences).checkPrecedence alternative.precedence =
          (declarations.withoutImplicitTokens.scope .plain precedences).checkPrecedence
            alternative.precedence := by
        cases alternative.precedence <;> rfl
      rw [same]
      cases (declarations.withoutImplicitTokens.scope .plain precedences).checkPrecedence
          alternative.precedence with
      | error fault => rfl
      | ok checked =>
          have woven := (declarations.scheme parts).weave_flatten forms
          exact congrArg (fun body => Except.ok (Clause.mk lhs body alternative.precedence))
            woven.symm

theorem HasImplicit.clauses :
    declarations.clauses (declarations.scope .eco precedences) =
      (declarations.withoutImplicitTokens.clauses
        (declarations.withoutImplicitTokens.scope .plain precedences)).map
          (List.map (declarations.scheme parts).weaveClause) :=
  except_map_m_map fun question _ => implicit.clause parts precedences question.1 question.2

end Clauses

section Accepted

variable (implicit : declarations.HasImplicit names) (accepted : declarations.Accepted .eco parts)

include implicit accepted

theorem HasImplicit.filler_iff {token : Symbol} :
    token ∈ parts.implicitTokens ↔
      token ∈ numberedSymbols .terminal declarations.tokenNames ∧ token.name ∈ names := by
  have listed := accepted.implicitTokens
  unfold implicitTokenSymbols at listed
  rw [implicit.listed] at listed
  obtain ⟨symbols, asked, equal⟩ := except_bind_eq_ok_iff.1 listed
  have same : symbols.eraseDups = parts.implicitTokens := Except.ok.inj equal
  rw [← same, List.mem_eraseDups]
  constructor
  · intro member
    obtain ⟨name, among, found⟩ := except_map_m_mem asked token member
    have found := require_eq_ok_iff.1 found
    have named := List.find?_some found
    rw [decide_eq_true_eq] at named
    exact ⟨Scope.token_mem found, named ▸ among⟩
  · intro declared
    rcases declared with ⟨member, among⟩
    obtain ⟨answer, present, found⟩ := except_map_m_answered asked token.name among
    have found := require_eq_ok_iff.1 found
    have named := List.find?_some found
    rw [decide_eq_true_eq] at named
    have apart := (distinct_lists_once (declarations.tokens ++
      declarations.precedenceLines.flatMap (·.tokens))).nodup
    rwa [← symbol_of_name apart (Scope.token_mem found) member named]

theorem HasImplicit.accepted_without : ∃ plainParts,
    declarations.withoutImplicitTokens.Accepted .plain plainParts ∧
      plainParts.start = parts.start ∧ plainParts.precedences = parts.precedences ∧
      parts.clauses = plainParts.clauses.map (declarations.scheme parts).weaveClause := by
  have made := accepted.clauses
  rw [implicit.clauses parts] at made
  obtain ⟨clauses, plainMade, woven⟩ := except_map_eq_ok_iff.1 made
  refine ⟨⟨parts.start, parts.precedences, clauses, parts.errorTexts, []⟩, ?_, rfl, rfl,
    woven.symm⟩
  exact {
    rules := accepted.rules
    start := accepted.start
    tokens := accepted.tokens
    precedences := accepted.precedences
    clauses := plainMade
    errorTexts := accepted.errorTexts
    implicitTokens := rfl
  }

theorem HasImplicit.relates {plainParts : Parts}
    (without : declarations.withoutImplicitTokens.Accepted .plain plainParts)
    (start : plainParts.start = parts.start)
    (ranked : plainParts.precedences = parts.precedences)
    (woven : parts.clauses = plainParts.clauses.map (declarations.scheme parts).weaveClause) :
    (declarations.scheme parts).Relates
      (declarations.withoutImplicitTokens.grammarOf .plain plainParts)
      (declarations.grammarOf .eco parts) where
  plain_whole := without.well_formed
  padded_whole := accepted.well_formed
  same_tokens := rfl
  same_eof := rfl
  same_start := start.symm
  same_precedences := ranked.symm
  plain_nonterminals := by
    change declarations.ruleSymbols ++ [] ++ [_] = _
    rw [List.append_nil]
    rfl
  padded_nonterminals := by
    change declarations.ruleSymbols ++ (declarations.implicitRule? .eco).toList ++ [_] = _
    rw [implicit.rule]
    rfl
  filler_kinds := fun token member => token_symbol_kind (accepted.implicit_token_known member)
  skip_apart := implicit.skip_apart
  start_user := without.start_known
  heads_declared := by
    intro production member
    rcases (without.leading_production_known member).1 with rule | none
    · exact rule
    · cases none
  bodies_declared := by
    intro production member symbol occurs
    rcases (without.leading_production_known member).2 symbol occurs with rule | token | none
    · exact Or.inr rule
    · exact Or.inl (token_symbol_kind token)
    · cases none
  leading_woven := by
    change numberedProductions (declarations.leadingClauses .eco parts) =
      (numberedProductions (plainParts.clauses ++ [])).map _ ++ _
    rw [leadingClauses, implicit.rule, numbered_productions_append, List.append_nil,
      ← Scheme.numbered_woven, ← woven]
    rfl
  loop_heads := by
    intro production member
    obtain ⟨clause, among, head, _⟩ := production_from_mem member
    rw [head]
    exact (loop_clause among).1
  loop_bodies := by
    intro production member
    obtain ⟨clause, among, _, body⟩ := production_from_mem member
    rw [body]
    exact (loop_clause among).2
  last_loop := production_from_of_clause (List.mem_append_right _ (List.mem_singleton_self _))
  token_loop := fun filler member =>
    production_from_of_clause (List.mem_append_left _ (List.mem_map.2 ⟨filler, member, rfl⟩))
  plain_start := rfl
  padded_start := by
    change (declarations.implicitRule? .eco).toList ++ [parts.start, _] = _
    rw [implicit.rule, ← start]
    rfl
  plain_augmented_apart := by
    intro member
    exact augmented_not_earlier declarations.withoutImplicitTokens .plain plainParts
      (List.mem_append_left _ member)
  padded_augmented_apart := by
    intro member
    apply augmented_not_earlier declarations .eco parts
    rw [implicit.rule]
    rcases List.mem_cons.1 member with same | rule
    · exact List.mem_append_right _ (List.mem_singleton.2 same)
    · exact List.mem_append_left _ rule

end Accepted

theorem HasImplicit.grammars (implicit : declarations.HasImplicit names) {eco : Grammar}
    (built : declarations.build .eco = .ok eco) :
    ∃ plain scheme, declarations.withoutImplicitTokens.build .plain = .ok plain ∧
      Scheme.Relates scheme plain eco ∧ scheme.users = declarations.ruleSymbols ∧
      ∀ token, token ∈ scheme.fillers ↔ token ∈ eco.tokens ∧ token.name ∈ names := by
  obtain ⟨parts, accepted, rfl⟩ := build_eq_ok_iff.1 built
  obtain ⟨plainParts, without, start, ranked, woven⟩ := implicit.accepted_without accepted
  exact ⟨_, declarations.scheme parts, build_eq_ok_iff.2 ⟨plainParts, without, rfl⟩,
    implicit.relates accepted without start ranked woven, rfl,
    fun _ => implicit.filler_iff accepted⟩

end Declarations

end GrammarKit
