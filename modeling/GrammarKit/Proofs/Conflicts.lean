import GrammarKit.Proofs.Report.Exact

/-!
# Conflicts left undecided

The resolver compares levels, and between equal levels it goes by the associativity of the
production. The static check compares precedences as a whole. Both come to the same since the tokens
of one level stand on one line and share its associativity. So the check lists exactly the conflicts
of a production that ends in a nonterminal with a terminal behind its head that the resolver leaves
undecided, and with the finding that the resolver gives.
-/

namespace GrammarKit

set_option autoImplicit false

/-- A production to reduce by and a token to shift instead. -/
structure Conflict where
  production : Production
  token : Symbol

namespace Conflict

/-- By number of the production, and for one production by number of the token. -/
def Before (earlier later : Conflict) : Prop :=
  earlier.production.index < later.production.index ∨
    earlier.production.index = later.production.index ∧ earlier.token.index < later.token.index

def finding (conflict : Conflict) : Diagnostic :=
  .ambiguousNonassoc conflict.production conflict.token

end Conflict

namespace PrecedenceTable

/-- What is left undecided are equal levels, where the production is not associative. -/
theorem decide_undecided_iff {production : Production} {token : Symbol}
    {ofProduction ofToken : Option Precedence} :
    (decide production token ofProduction ofToken).action = none ↔
      ∃ own other, ofProduction = some own ∧ ofToken = some other ∧ own.level = other.level ∧
        own.associativity = .nonassociative := by
  cases ofProduction with
  | none => simp [decide]
  | some own =>
      cases ofToken with
      | none => simp [decide]
      | some other =>
          simp only [decide]
          rcases Int.lt_trichotomy own.level other.level with lower | level | higher
          · simp [if_pos lower, Int.ne_of_lt lower]
          · cases associativity : own.associativity <;> simp [level, associativity]
          · have apart : own.level ≠ other.level := Int.ne_of_gt higher
            simp [if_pos higher, Int.not_lt.2 (Int.le_of_lt higher), apart]

theorem decide_undecided_diagnostic {production : Production} {token : Symbol}
    {ofProduction ofToken : Option Precedence}
    (undecided : (decide production token ofProduction ofToken).action = none) :
    (decide production token ofProduction ofToken).diagnostic =
      some (.ambiguousNonassoc production token) := by
  obtain ⟨own, other, rfl, rfl, level, associativity⟩ := decide_undecided_iff.1 undecided
  simp [decide, level, associativity]

end PrecedenceTable

namespace Grammar

variable {grammar : Grammar}

/-- Tokens of one level are of one associativity. -/
def LevelsAgree (grammar : Grammar) : Prop :=
  ∀ left ∈ grammar.precedences.entries, ∀ right ∈ grammar.precedences.entries,
    left.2.level = right.2.level → left.2 = right.2

theorem ranked_of_first_precedence {symbols : List Symbol} {precedence : Precedence}
    (found : grammar.firstPrecedence symbols = some precedence) :
    ∃ name, grammar.precedences.find? name = some precedence := by
  obtain ⟨symbol, _, looked⟩ := List.exists_of_findSome?_eq_some found
  split at looked
  · exact ⟨symbol.name, looked⟩
  · cases looked

theorem ranked_of_production_precedence {production : Production} {precedence : Precedence}
    (found : grammar.productionPrecedence production = some precedence) :
    ∃ name, grammar.precedences.find? name = some precedence := by
  unfold productionPrecedence at found
  split at found
  · exact ⟨_, found⟩
  · exact ranked_of_first_precedence found

theorem LevelsAgree.eq_of_level (agree : grammar.LevelsAgree) {left right : Precedence}
    (leftFound : ∃ name, grammar.precedences.find? name = some left)
    (rightFound : ∃ name, grammar.precedences.find? name = some right)
    (level : left.level = right.level) : left = right := by
  obtain ⟨leftName, leftFound⟩ := leftFound
  obtain ⟨rightName, rightFound⟩ := rightFound
  obtain ⟨leftEntry, leftListed, rfl⟩ := Option.map_eq_some_iff.1 leftFound
  obtain ⟨rightEntry, rightListed, rfl⟩ := Option.map_eq_some_iff.1 rightFound
  exact agree leftEntry (List.mem_of_find?_eq_some leftListed) rightEntry
    (List.mem_of_find?_eq_some rightListed) level

/-- The decision on a production and a terminal. -/
def resolution (grammar : Grammar) (production : Production) (terminal : Symbol) : Resolution :=
  PrecedenceTable.decide production terminal (grammar.productionPrecedence production)
    (grammar.precedenceOf terminal)

theorem resolution_undecided_iff (agree : grammar.LevelsAgree) {production : Production}
    {terminal : Symbol} :
    (grammar.resolution production terminal).action = none ↔
      ∃ precedence, grammar.productionPrecedence production = some precedence ∧
        precedence.associativity = .nonassociative ∧
        grammar.precedenceOf terminal = some precedence := by
  unfold resolution
  rw [PrecedenceTable.decide_undecided_iff]
  constructor
  · intro undecided
    obtain ⟨own, other, ranked, tokenRanked, level, associativity⟩ := undecided
    obtain rfl := agree.eq_of_level (ranked_of_production_precedence ranked)
      ⟨terminal.name, tokenRanked⟩ level
    exact ⟨own, ranked, associativity, tokenRanked⟩
  · intro same
    obtain ⟨precedence, ranked, associativity, tokenRanked⟩ := same
    exact ⟨precedence, precedence, ranked, tokenRanked, rfl, associativity⟩

theorem clashes_iff_undecided (agree : grammar.LevelsAgree) {production : Production}
    {terminal : Symbol} :
    grammar.Clashes production terminal ↔
      grammar.Follows production.lhs terminal ∧
        (grammar.resolution production terminal).action = none := by
  unfold Clashes
  rw [resolution_undecided_iff agree]
  constructor
  · intro clash
    obtain ⟨precedence, ranked, associativity, tokenRanked, follows⟩ := clash
    exact ⟨follows, precedence, ranked, associativity, tokenRanked⟩
  · intro undecided
    obtain ⟨follows, precedence, ranked, associativity, tokenRanked⟩ := undecided
    exact ⟨precedence, ranked, associativity, tokenRanked, follows⟩

open scoped Classical in
/-- The clashes of a production that ends in a nonterminal. -/
noncomputable def conflictsOf (grammar : Grammar) (production : Production) : List Conflict :=
  (grammar.terminals.filter fun terminal => production.EndsInNonterminal ∧
    grammar.Clashes production terminal).map (Conflict.mk production)

noncomputable def conflicts (grammar : Grammar) : List Conflict :=
  grammar.productions.flatMap grammar.conflictsOf

theorem conflict_findings :
    grammar.conflicts.map (·.finding) = grammar.productions.flatMap grammar.clashesOf := by
  unfold conflicts
  rw [List.map_flatMap]
  congr 1
  funext production
  simp [conflictsOf, clashesOf, Conflict.finding, Function.comp_def]

theorem mem_conflicts_iff {conflict : Conflict} :
    conflict ∈ grammar.conflicts ↔
      conflict.production ∈ grammar.productions ∧ conflict.token ∈ grammar.terminals ∧
        conflict.production.EndsInNonterminal ∧
        grammar.Clashes conflict.production conflict.token := by
  unfold conflicts conflictsOf
  simp only [List.mem_flatMap, List.mem_map, List.mem_filter, decide_eq_true_eq]
  constructor
  · intro listed
    obtain ⟨production, among, terminal, ⟨known, ends, clashes⟩, rfl⟩ := listed
    exact ⟨among, known, ends, clashes⟩
  · intro clash
    obtain ⟨among, known, ends, clashes⟩ := clash
    exact ⟨_, among, _, ⟨known, ends, clashes⟩, rfl⟩

theorem conflicts_in_order (whole : grammar.WellFormed) (numbered : grammar.ProductionsNumbered) :
    grammar.conflicts.Pairwise Conflict.Before := by
  apply List.pairwise_flatMap.2
  constructor
  · intro production _
    unfold conflictsOf
    rw [List.pairwise_map]
    refine (whole.terminals_numbered.ascending.filter _).imp ?_
    intro earlier later before
    exact Or.inr ⟨rfl, before⟩
  · refine numbered.ascending.imp ?_
    intro earlier later before first firstListed second secondListed
    obtain ⟨_, _, rfl⟩ := List.mem_map.1 firstListed
    obtain ⟨_, _, rfl⟩ := List.mem_map.1 secondListed
    exact Or.inl before

end Grammar

namespace PrecedenceTable

theorem resolve_eq {grammar : Grammar} (whole : grammar.WellFormed)
    (numbered : grammar.ProductionsNumbered) {production : Production}
    (member : production ∈ grammar.productions) {terminal : Symbol}
    (known : terminal ∈ grammar.terminals) :
    (complete grammar).resolveShiftReduce production terminal =
      .ok (grammar.resolution production terminal) := by
  unfold resolveShiftReduce
  rw [of_production_eq numbered member, of_token_eq whole known]
  rfl

end PrecedenceTable

namespace Declarations

variable {declarations : Declarations} {variant : Variant} {grammar : Grammar}

theorem levels_agree_of_build (built : declarations.build variant = .ok grammar) :
    grammar.LevelsAgree := by
  unfold Grammar.LevelsAgree
  rw [ranked_in_order built]
  intro left leftListed right rightListed level
  obtain ⟨leftPlace, leftLine, leftFound, _, leftRank⟩ := mem_precedence_pairs.1 leftListed
  obtain ⟨rightPlace, rightLine, rightFound, _, rightRank⟩ := mem_precedence_pairs.1 rightListed
  rw [leftRank, rightRank] at level ⊢
  have same : leftPlace = rightPlace := by
    simp only at level
    omega
  subst same
  rw [leftFound, Option.some.injEq] at rightFound
  rw [rightFound]

/-- The static check lists the conflicts that are left undecided at the end of a production, in
order, each with the finding of the resolver. -/
theorem ambiguities_are_undecided_conflicts (built : declarations.build variant = .ok grammar) :
    ∃ (table : PrecedenceTable) (follows : FollowTable) (conflicts : List Conflict),
      PrecedenceTable.ofGrammar grammar = .ok table ∧
      (FollowTable.ofGrammar grammar).outcome = .ok follows ∧
      table.ambiguities follows = .ok (conflicts.map (·.finding)) ∧
      conflicts.Pairwise Conflict.Before ∧
      (∀ conflict ∈ conflicts,
        conflict.production ∈ grammar.productions ∧ conflict.token ∈ grammar.terminals) ∧
      ∀ production ∈ grammar.productions, ∀ token ∈ grammar.terminals,
        ∃ following resolution, follows.ofSymbol production.lhs = .ok following ∧
          table.resolveShiftReduce production token = .ok resolution ∧
          (⟨production, token⟩ ∈ conflicts ↔ production.EndsInNonterminal ∧
            token.index ∈ following ∧ resolution.action = none) ∧
          (⟨production, token⟩ ∈ conflicts →
            resolution.diagnostic = some (Conflict.finding ⟨production, token⟩)) := by
  have whole := well_formed_of_build built
  have numbered := productions_numbered_of_build built
  have agree := levels_agree_of_build built
  obtain ⟨follows, followed, exact⟩ := FollowTable.of_grammar_outcome whole
  have listed := PrecedenceTable.ambiguities_eq whole exact numbered
  rw [← Grammar.conflict_findings] at listed
  refine ⟨_, follows, grammar.conflicts, PrecedenceTable.of_grammar_eq whole, followed, listed,
    Grammar.conflicts_in_order whole numbered, ?_, ?_⟩
  · intro conflict among
    obtain ⟨member, known, _⟩ := Grammar.mem_conflicts_iff.1 among
    exact ⟨member, known⟩
  · intro production member token known
    have head := whole.heads_known production member
    have undecided : ⟨production, token⟩ ∈ grammar.conflicts ↔ production.EndsInNonterminal ∧
        token.index ∈ follows.tokensOf production.lhs.index ∧
        (grammar.resolution production token).action = none := by
      rw [Grammar.mem_conflicts_iff, Grammar.clashes_iff_undecided agree,
        exact.follows_iff production.lhs head token known]
      simp [member, known]
    refine ⟨_, _, FollowTable.of_symbol_eq whole exact.size head,
      PrecedenceTable.resolve_eq whole numbered member known, undecided, ?_⟩
    intro among
    exact PrecedenceTable.decide_undecided_diagnostic (undecided.1 among).2.2

/-- One comparison behind another is the only conflict that nothing decides. -/
theorem conflicts_of_comparisons :
    comparisonDeclarations.build .plain = .ok comparisons ∧
      ∃ table follows resolution, PrecedenceTable.ofGrammar comparisons = .ok table ∧
        (FollowTable.ofGrammar comparisons).outcome = .ok follows ∧
        table.ambiguities follows =
          .ok [.ambiguousNonassoc comparisons.leading[0] ⟨.terminal, 3, "<"⟩] ∧
        table.resolveShiftReduce comparisons.leading[0] ⟨.terminal, 3, "<"⟩ = .ok resolution ∧
        resolution.action = none ∧
        resolution.diagnostic =
          some (.ambiguousNonassoc comparisons.leading[0] ⟨.terminal, 3, "<"⟩) := by
  obtain ⟨table, follows, conflicts, ranked, followed, listed, _, _, told⟩ :=
    ambiguities_are_undecided_conflicts comparisons_built
  obtain ⟨_, resolution, _, resolved, listed_iff, diagnosed⟩ :=
    told comparisons.leading[0] (by decide) ⟨.terminal, 3, "<"⟩ (by decide)
  have computed : ((PrecedenceTable.ofGrammar comparisons) >>= fun table =>
      (FollowTable.ofGrammar comparisons).outcome >>= fun follows => table.ambiguities follows) =
        .ok [.ambiguousNonassoc comparisons.leading[0] ⟨.terminal, 3, "<"⟩] := by
    decide +kernel
  rw [ranked, followed] at computed
  have only : table.ambiguities follows =
      .ok [.ambiguousNonassoc comparisons.leading[0] ⟨.terminal, 3, "<"⟩] := computed
  have findings := Except.ok.inj (listed.symm.trans only)
  obtain ⟨⟨production, token⟩, among, finding⟩ : ∃ conflict ∈ conflicts, conflict.finding =
      .ambiguousNonassoc comparisons.leading[0] ⟨.terminal, 3, "<"⟩ :=
    List.mem_map.1 (findings ▸ List.mem_singleton_self _)
  obtain ⟨rfl, rfl⟩ := Diagnostic.ambiguousNonassoc.inj finding
  exact ⟨comparisons_built, table, follows, resolution, ranked, followed, only, resolved,
    (listed_iff.1 among).2.2, diagnosed among⟩

end Declarations

end GrammarKit
