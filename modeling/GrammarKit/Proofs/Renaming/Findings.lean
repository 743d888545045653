import GrammarKit.Proofs.Conflicts
import GrammarKit.Proofs.Renaming.Names

/-!
# Findings about renamed grammars

What a check owes is a matter of derivations, occurrences and precedences. Known symbols are told
apart by kind and index, so that derivations and occurrences carry over to other names. Precedences
are looked up by name, but of declared tokens only, and these go by names that are told apart as
before. So each check owes the same findings under other names.
-/

namespace GrammarKit

set_option autoImplicit false

variable {naming : Naming}

def Diagnostic.renamed (naming : Naming) : Diagnostic → Diagnostic
  | .undefinedSymbol symbol production =>
      .undefinedSymbol (symbol.renamed naming) (production.renamed naming)
  | .emptyRule symbol => .emptyRule (symbol.renamed naming)
  | .unreachable symbol start => .unreachable (symbol.renamed naming) (start.renamed naming)
  | .unproductive symbol => .unproductive (symbol.renamed naming)
  | .unusedTerminal symbol => .unusedTerminal (symbol.renamed naming)
  | .unusedPrecedence name precedence symbol =>
      .unusedPrecedence (naming.declared name) precedence (symbol.renamed naming)
  | .ambiguousNonassoc production token =>
      .ambiguousNonassoc (production.renamed naming) (token.renamed naming)
  | .unresolvedShiftReduce production token =>
      .unresolvedShiftReduce (production.renamed naming) (token.renamed naming)
  | .reduceReduce earliest latest =>
      .reduceReduce (earliest.renamed naming) (latest.renamed naming)

def Resolution.renamed (naming : Naming) (resolution : Resolution) : Resolution where
  action := resolution.action
  production := resolution.production.renamed naming
  diagnostic := resolution.diagnostic.map (·.renamed naming)

theorem PrecedenceTable.decide_renamed (production : Production) (token : Symbol)
    (ofProduction ofToken : Option Precedence) :
    decide (production.renamed naming) (token.renamed naming) ofProduction ofToken =
      (decide production token ofProduction ofToken).renamed naming := by
  cases ofProduction with
  | none => rfl
  | some own =>
      cases ofToken with
      | none => rfl
      | some other =>
          simp only [decide]
          split
          · rfl
          · split
            · rfl
            · cases own.associativity <;> rfl

namespace Grammar

variable {grammar : Grammar}

section Known

theorem WellFormed.renamed (whole : grammar.WellFormed) : (grammar.renamed naming).WellFormed := by
  have numbered {kind : SymbolKind} {table : List Symbol} (numbered : NumberedTable kind table) :
      NumberedTable kind (table.map (·.renamed naming)) := by
    intro entry member
    rw [List.zipIdx_map] at member
    obtain ⟨earlier, listed, rfl⟩ := List.mem_map.1 member
    exact numbered earlier listed
  constructor
  · rw [renamed_terminals]
    exact numbered whole.terminals_numbered
  · exact numbered whole.nonterminals_numbered
  · exact List.mem_map_of_mem whole.start_known
  · rw [renamed_productions]
    intro production member
    obtain ⟨earlier, listed, rfl⟩ := List.mem_map.1 member
    exact List.mem_map_of_mem (whole.heads_known earlier listed)
  · rw [renamed_productions]
    intro production member symbol occurs
    obtain ⟨earlier, listed, rfl⟩ := List.mem_map.1 member
    obtain ⟨other, inside, rfl⟩ := List.mem_map.1 occurs
    rcases whole.bodies_known earlier listed other inside with terminal | nonterminal
    · exact Or.inl (renamed_terminals grammar ▸ List.mem_map_of_mem terminal)
    · exact Or.inr (List.mem_map_of_mem nonterminal)

theorem ProductionsNumbered.renamed (numbered : grammar.ProductionsNumbered) :
    (grammar.renamed naming).ProductionsNumbered := by
  unfold ProductionsNumbered
  rw [renamed_productions]
  intro place inside
  rw [List.getElem_map]
  exact numbered place (by simpa using inside)

variable (whole : grammar.WellFormed)

include whole

/-- Known symbols are told apart by kind and index, whatever their names are. -/
theorem known_of_renamed {left right : Symbol} (leftKnown : grammar.Knows left)
    (rightKnown : grammar.Knows right) :
    left.renamed naming = right.renamed naming ↔ left = right := by
  constructor
  · intro same
    have kind := congrArg Symbol.isTerminal same
    have index := congrArg Symbol.index same
    rw [Symbol.renamed_is_terminal, Symbol.renamed_is_terminal] at kind
    rw [Symbol.renamed_index, Symbol.renamed_index] at index
    cases terminal : left.isTerminal with
    | true =>
        exact whole.terminal_of_index (whole.terminal_known leftKnown terminal)
          (whole.terminal_known rightKnown (kind ▸ terminal)) index
    | false =>
        exact whole.eq_of_same_index (whole.nonterminal_known leftKnown terminal)
          (whole.nonterminal_known rightKnown (kind ▸ terminal)) index
  · exact congrArg _

theorem occurs_renamed {symbols : List Symbol} (known : grammar.KnowsAll symbols) {symbol : Symbol}
    (own : grammar.Knows symbol) :
    symbol.renamed naming ∈ symbols.map (·.renamed naming) ↔ symbol ∈ symbols := by
  rw [List.mem_map]
  constructor
  · rintro ⟨other, member, same⟩
    exact (known_of_renamed whole (known other member) own).1 same ▸ member
  · intro member
    exact ⟨symbol, member, rfl⟩

theorem has_production_renamed {symbol : Symbol} (member : symbol ∈ grammar.nonterminals) :
    (grammar.renamed naming).HasProduction (symbol.renamed naming) ↔
      grammar.HasProduction symbol := by
  unfold HasProduction
  rw [renamed_productions]
  simp only [List.mem_map, exists_exists_and_eq_and, Production.renamed_lhs]
  constructor
  · rintro ⟨production, listed, head⟩
    exact ⟨production, listed,
      (known_of_renamed whole (.inr (whole.heads_known production listed)) (.inr member)).1 head⟩
  · rintro ⟨production, listed, rfl⟩
    exact ⟨production, listed, rfl⟩

theorem reaches_renamed {symbol : Symbol} (member : symbol ∈ grammar.nonterminals) :
    (grammar.renamed naming).Reaches (grammar.renamed naming).augmentedStart
        (symbol.renamed naming) ↔
      grammar.Reaches grammar.augmentedStart symbol := by
  obtain ⟨reached, found, exact⟩ := reachable_exact whole
  have otherWhole : (grammar.renamed naming).WellFormed := whole.renamed
  obtain ⟨other, otherFound, otherExact⟩ := reachable_exact otherWhole
  rw [reachable_renamed, found] at otherFound
  obtain rfl := Except.ok.inj otherFound
  rw [← otherExact _ (List.mem_map_of_mem member), ← exact symbol member, Symbol.renamed_index]

theorem derives_tokens_renamed {symbol : Symbol} (member : symbol ∈ grammar.nonterminals) :
    (grammar.renamed naming).DerivesTokens (symbol.renamed naming) ↔
      grammar.DerivesTokens symbol := by
  rw [← mem_productive_iff whole member,
    ← mem_productive_iff whole.renamed (List.mem_map_of_mem member), productive_renamed,
    Symbol.renamed_index]

theorem follows_renamed {symbol terminal : Symbol} (member : symbol ∈ grammar.nonterminals)
    (known : terminal ∈ grammar.terminals) :
    (grammar.renamed naming).Follows (symbol.renamed naming) (terminal.renamed naming) ↔
      grammar.Follows symbol terminal := by
  obtain ⟨table, found, exact⟩ := FollowTable.of_grammar_outcome whole
  have otherWhole : (grammar.renamed naming).WellFormed := whole.renamed
  obtain ⟨other, otherFound, otherExact⟩ := FollowTable.of_grammar_outcome otherWhole
  rw [FollowTable.of_grammar_renamed, found] at otherFound
  obtain rfl := Except.ok.inj otherFound
  rw [← exact.follows_iff symbol member terminal known,
    ← otherExact.follows_iff _ (List.mem_map_of_mem member) _
      (renamed_terminals grammar ▸ List.mem_map_of_mem known),
    Symbol.renamed_index, Symbol.renamed_index]

end Known

/-- The symbols are those of the tables. Tokens go by their own names, which are told apart. -/
structure NamedBy (naming : Naming) (grammar : Grammar) : Prop where
  whole : grammar.WellFormed
  injective : Function.Injective naming.declared
  terminals : ∀ terminal ∈ grammar.terminals, terminal.NamedBy naming

namespace NamedBy

variable (named : grammar.NamedBy naming)

include named

section Precedences

theorem ranked_renamed (name : String) :
    (grammar.renamed naming).precedences.find? (naming.declared name) =
      grammar.precedences.find? name :=
  Register.find_rekeyed fun _ _ _ _ same => named.injective same

theorem precedence_of_renamed {terminal : Symbol} (member : terminal ∈ grammar.terminals) :
    (grammar.renamed naming).precedenceOf (terminal.renamed naming) =
      grammar.precedenceOf terminal := by
  have name : (terminal.renamed naming).name = naming.declared terminal.name :=
    named.terminals terminal member
  unfold precedenceOf
  rw [name, named.ranked_renamed]

theorem first_precedence_renamed {symbols : List Symbol} (known : grammar.KnowsAll symbols) :
    (grammar.renamed naming).firstPrecedence (symbols.map (·.renamed naming)) =
      grammar.firstPrecedence symbols := by
  induction symbols with
  | nil => rfl
  | cons symbol rest ih =>
      have same : (symbol.renamed naming).isTerminal = symbol.isTerminal := rfl
      rw [List.map_cons]
      cases kind : symbol.isTerminal with
      | true =>
          have member := named.whole.terminal_known (known symbol List.mem_cons_self) kind
          rw [first_precedence_of_terminal _ (same.trans kind),
            first_precedence_of_terminal _ kind, named.precedence_of_renamed member, ih known.tail]
      | false =>
          rw [first_precedence_of_nonterminal _ (same.trans kind),
            first_precedence_of_nonterminal _ kind, ih known.tail]

theorem production_precedence_renamed {production : Production}
    (member : production ∈ grammar.productions) :
    (grammar.renamed naming).productionPrecedence (production.renamed naming) =
      grammar.productionPrecedence production := by
  have known : grammar.KnowsAll production.rhs.reverse := fun symbol occurs =>
    named.whole.bodies_known production member symbol (List.mem_reverse.1 occurs)
  unfold productionPrecedence
  cases lent : production.precedence with
  | some name =>
      rw [show (production.renamed naming).precedence = some (naming.declared name) by
        simp [Production.renamed, lent]]
      exact named.ranked_renamed name
  | none =>
      rw [show (production.renamed naming).precedence = none by simp [Production.renamed, lent]]
      rw [Production.renamed_rhs, ← List.map_reverse]
      exact named.first_precedence_renamed known

theorem resolution_renamed {production : Production} (member : production ∈ grammar.productions)
    {terminal : Symbol} (known : terminal ∈ grammar.terminals) :
    (grammar.renamed naming).resolution (production.renamed naming) (terminal.renamed naming) =
      (grammar.resolution production terminal).renamed naming := by
  unfold resolution
  rw [named.production_precedence_renamed member, named.precedence_of_renamed known,
    PrecedenceTable.decide_renamed]

theorem clashes_renamed {production : Production} (member : production ∈ grammar.productions)
    {terminal : Symbol} (known : terminal ∈ grammar.terminals) :
    (grammar.renamed naming).Clashes (production.renamed naming) (terminal.renamed naming) ↔
      grammar.Clashes production terminal := by
  unfold Clashes
  rw [named.production_precedence_renamed member, named.precedence_of_renamed known,
    Production.renamed_lhs,
    follows_renamed named.whole (named.whole.heads_known production member) known]

end Precedences

theorem uses_renamed {terminal : Symbol} (member : terminal ∈ grammar.terminals) :
    (grammar.renamed naming).Uses (terminal.renamed naming) ↔ grammar.Uses terminal := by
  have name : (terminal.renamed naming).name = naming.declared terminal.name :=
    named.terminals terminal member
  have lends (production : Production) : (production.renamed naming).precedence =
      some (terminal.renamed naming).name ↔ production.precedence = some terminal.name := by
    rw [name]
    change production.precedence.map naming.declared = (some terminal.name).map _ ↔ _
    exact (Option.map_injective named.injective).eq_iff
  unfold Uses
  rw [renamed_productions]
  simp only [List.mem_map, exists_exists_and_eq_and, lends]
  constructor
  · rintro ⟨production, listed, occurs | lent⟩
    · have known := named.whole.bodies_known production listed
      exact ⟨production, listed, .inl ((occurs_renamed named.whole known (.inl member)).1 occurs)⟩
    · exact ⟨production, listed, .inr lent⟩
  · rintro ⟨production, listed, occurs | lent⟩
    · exact ⟨production, listed, .inl (List.mem_map_of_mem occurs)⟩
    · exact ⟨production, listed, .inr lent⟩

end NamedBy

section Owed

theorem findings_renamed {symbols : List Symbol} {holds other : Symbol → Prop}
    [DecidablePred holds] [DecidablePred other] {finding changed : Symbol → Diagnostic}
    (same : ∀ symbol ∈ symbols, other (symbol.renamed naming) ↔ holds symbol)
    (alike : ∀ symbol, changed (symbol.renamed naming) = (finding symbol).renamed naming) :
    ((symbols.map (·.renamed naming)).filter fun symbol => other symbol).map changed =
      ((symbols.filter fun symbol => holds symbol).map finding).map (·.renamed naming) := by
  have kept : symbols.filter (fun symbol => other (symbol.renamed naming)) =
      symbols.filter fun symbol => holds symbol :=
    List.filter_congr fun symbol member => decide_eq_decide.2 (same symbol member)
  rw [List.filter_map, List.map_map, List.map_map]
  change (symbols.filter fun symbol => other (symbol.renamed naming)).map _ = _
  rw [kept]
  exact List.map_congr_left fun symbol _ => alike symbol

variable (named : grammar.NamedBy naming)

include named

theorem unused_named_renamed (name : String) (precedence : Precedence) [DecidablePred grammar.Uses]
    [DecidablePred (grammar.renamed naming).Uses] :
    ((grammar.renamed naming).terminals.filter fun terminal =>
        terminal.name = naming.declared name ∧ ¬(grammar.renamed naming).Uses terminal).map
          (Diagnostic.unusedPrecedence (naming.declared name) precedence) =
      ((grammar.terminals.filter fun terminal =>
        terminal.name = name ∧ ¬grammar.Uses terminal).map
          (Diagnostic.unusedPrecedence name precedence)).map (·.renamed naming) := by
  rw [renamed_terminals]
  apply findings_renamed
  · intro terminal member
    rw [named.uses_renamed member]
    change naming.symbol terminal = _ ∧ _ ↔ _
    rw [named.terminals terminal member, named.injective.eq_iff]
  · intro terminal
    rfl

open scoped Classical in
theorem clashes_of_renamed {production : Production} (member : production ∈ grammar.productions) :
    (grammar.renamed naming).clashesOf (production.renamed naming) =
      (grammar.clashesOf production).map (·.renamed naming) := by
  have ends : (production.renamed naming).EndsInNonterminal ↔ production.EndsInNonterminal := by
    simp [Production.EndsInNonterminal]
  unfold clashesOf
  rw [renamed_terminals]
  apply findings_renamed
  · intro terminal known
    rw [ends, named.clashes_renamed member known]
  · intro terminal
    rfl

open scoped Classical in
/-- Under other names each check owes the same findings, in the same order. -/
theorem owed_renamed (check : Check) :
    check.owed (grammar.renamed naming) = (check.owed grammar).map (·.renamed naming) := by
  have whole := named.whole
  cases check with
  | undefinedSymbols => rfl
  | emptyRules =>
      apply findings_renamed
      · intro symbol member
        rw [has_production_renamed whole member]
      · intro symbol
        rfl
  | unreachableNonterminals =>
      apply findings_renamed
      · intro symbol member
        rw [reaches_renamed whole member]
      · intro symbol
        rfl
  | unproductiveNonterminals =>
      apply findings_renamed
      · intro symbol member
        rw [has_production_renamed whole member, derives_tokens_renamed whole member]
      · intro symbol
        rfl
  | unusedTerminals =>
      have eof : grammar.eof ∈ grammar.terminals := by simp [terminals]
      change List.map _ (List.filter _ (grammar.renamed naming).terminals) = _
      rw [renamed_terminals]
      apply findings_renamed
      · intro terminal member
        rw [named.uses_renamed member]
        exact and_congr_left' (not_congr (known_of_renamed whole (.inl member) (.inl eof)))
      · intro terminal
        rfl
  | unusedPrecedences =>
      have entries : (grammar.renamed naming).precedences.entries = _ :=
        Register.entries_rekeyed fun _ _ _ _ same => named.injective same
      change List.flatMap _ (grammar.renamed naming).precedences.entries =
        List.map _ (List.flatMap _ grammar.precedences.entries)
      rw [entries, List.flatMap_map, List.map_flatMap]
      exact List.flatMap_congr fun entry _ => unused_named_renamed named entry.1 entry.2
  | ambiguousNonassoc =>
      change List.flatMap _ (grammar.renamed naming).productions =
        List.map _ (List.flatMap _ grammar.productions)
      rw [renamed_productions, List.flatMap_map, List.map_flatMap]
      exact List.flatMap_congr fun production member => clashes_of_renamed named member

end Owed

end Grammar

end GrammarKit
