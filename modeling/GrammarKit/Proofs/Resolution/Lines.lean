import GrammarKit.Proofs.Build.ReadBack
import GrammarKit.Proofs.Conflicts

/-!
# Conflicts are decided by the precedence lines

Which line an alternative belongs to is read from what its author wrote: the line of the token that
lends its precedence by name, or else of the last token of the alternative that stands on a line at
all. A conflict with a terminal compares the place of that line with the place of the line of the
terminal, and on one line its associativity decides. Levels, indices and the symbols that are woven
into right-hand sides leave no trace in this.
-/

namespace GrammarKit

set_option autoImplicit false

/-- The name of the token, if the reference means one. -/
def Reference.token? : Reference → Option String
  | .token name => some name
  | _ => none

def Alternative.tokens (alternative : Alternative) : List String :=
  alternative.references.filterMap (·.token?)

theorem Alternative.mem_tokens_iff {alternative : Alternative} {token : String} :
    token ∈ alternative.tokens ↔ .token token ∈ alternative.references := by
  unfold tokens
  rw [List.mem_filterMap]
  constructor
  · intro told
    obtain ⟨reference, inside, told⟩ := told
    cases reference with
    | token name => exact Option.some.inj told ▸ inside
    | rule name => cases told
    | stray text => cases told
  · intro inside
    exact ⟨.token token, inside, rfl⟩

namespace Symbol

theorem reference_of_terminal {symbol : Symbol} (terminal : symbol.isTerminal) :
    symbol.reference = .token symbol.name := by
  rcases symbol with ⟨kind, index, name⟩
  cases kind with
  | terminal => rfl
  | nonterminal => cases terminal

theorem reference_of_nonterminal {symbol : Symbol} (nonterminal : symbol.isTerminal = false) :
    symbol.reference = .rule symbol.name := by
  rcases symbol with ⟨kind, index, name⟩
  cases kind with
  | terminal => cases nonterminal
  | nonterminal => rfl

theorem token_of_reference {symbol : Symbol} {token : String}
    (referred : symbol.reference = .token token) : symbol.isTerminal ∧ symbol.name = token := by
  cases kind : symbol.isTerminal with
  | true =>
      rw [reference_of_terminal kind] at referred
      exact ⟨rfl, Reference.token.inj referred⟩
  | false =>
      rw [reference_of_nonterminal kind] at referred
      cases referred

end Symbol

namespace Declarations

/-- The precedence line at this place names the token. -/
def NamedAt (declarations : Declarations) (place : Nat) (token : String) : Prop :=
  ∃ line, declarations.precedenceLines[place]? = some line ∧ token ∈ line.tokens

/-- The token that lends an alternative its precedence: the one named for it, or else the last of
its tokens that stands on a precedence line. -/
def lender? (declarations : Declarations) (alternative : Alternative) : Option String :=
  alternative.precedence.or
    (alternative.tokens.filter fun token => token ∈ declarations.rankedTokens).getLast?

/-- The precedence line at this place names the token that lends its precedence. -/
def LentAt (declarations : Declarations) (place : Nat) (alternative : Alternative) : Prop :=
  ∃ token ∈ declarations.lender? alternative, declarations.NamedAt place token

/-- All alternatives in order, each with the symbol of its rule. -/
def headedAlternatives (declarations : Declarations) : List (Symbol × Alternative) :=
  (declarations.rules.zip declarations.ruleSymbols).flatMap fun (rule, lhs) =>
    rule.alternatives.map fun alternative => (lhs, alternative)

end Declarations

/-- The production of this number was made from the alternative. -/
structure Grammar.Tells (grammar : Grammar) (place : Nat) (headed : Symbol × Alternative)
    (production : Production) : Prop where
  number : grammar.production place = .ok production
  head : production.lhs = headed.1
  alternative : grammar.alternativeOf production.clause = headed.2

/-- What the precedence lines ask of a conflict between reducing by the production, which was made
from the alternative, and shifting the terminal. -/
structure Declarations.Dictates (declarations : Declarations) (alternative : Alternative)
    (production : Production) (terminal : Symbol) (resolution : Resolution) : Prop where
  unresolved_iff :
    resolution =
        ⟨some .shift, production, some (.unresolvedShiftReduce production terminal)⟩ ↔
      (¬ ∃ place, declarations.LentAt place alternative) ∨
        ¬ ∃ place, declarations.NamedAt place terminal.name
  later_terminal : ∀ own other, declarations.LentAt own alternative →
    declarations.NamedAt other terminal.name → own < other →
      resolution = ⟨some .shift, production, none⟩
  later_alternative : ∀ own other, declarations.LentAt own alternative →
    declarations.NamedAt other terminal.name → other < own →
      resolution = ⟨some .reduce, production, none⟩
  same_line : ∀ (place : Nat) (line : PrecedenceLine),
    declarations.precedenceLines[place]? = some line →
    declarations.LentAt place alternative → declarations.NamedAt place terminal.name →
      resolution = match line.associativity with
        | .left => ⟨some .reduce, production, none⟩
        | .right => ⟨some .shift, production, none⟩
        | .nonassociative => ⟨none, production, some (.ambiguousNonassoc production terminal)⟩

theorem PrecedenceTable.decide_unresolved_iff {production : Production} {token : Symbol}
    {ofProduction ofToken : Option Precedence} :
    decide production token ofProduction ofToken =
        ⟨some .shift, production, some (.unresolvedShiftReduce production token)⟩ ↔
      ofProduction = none ∨ ofToken = none := by
  cases ofProduction with
  | none => simp [decide]
  | some own =>
      cases ofToken with
      | none => simp [decide]
      | some other =>
          simp only [decide]
          rcases Int.lt_trichotomy own.level other.level with lower | level | higher
          · simp [if_pos lower]
          · cases associativity : own.associativity <;> simp [level]
          · simp [if_pos higher, Int.not_lt.2 (Int.le_of_lt higher)]

namespace Declarations

variable {declarations : Declarations} {variant : Variant} {parts : Parts} {grammar : Grammar}

section Lines

theorem precedence_found (built : declarations.build variant = .ok grammar) {token : String}
    {precedence : Precedence} :
    grammar.precedences.find? token = some precedence ↔
      ∃ (place : Nat) (line : PrecedenceLine), declarations.precedenceLines[place]? = some line ∧
        token ∈ line.tokens ∧ precedence = ⟨place + 1, line.associativity⟩ := by
  rw [Register.find_eq_some_iff, ranked_in_order built]
  exact mem_precedence_pairs

theorem ranked_iff (built : declarations.build variant = .ok grammar) {token : String} :
    token ∈ declarations.rankedTokens ↔ (grammar.precedences.find? token).isSome := by
  obtain ⟨parts, accepted, rfl⟩ := build_eq_ok_iff.1 built
  exact (precedence_names accepted.precedences).symm

theorem rank_of_named (built : declarations.build variant = .ok grammar) {place : Nat}
    {token : String} (named : declarations.NamedAt place token) :
    ∃ line, declarations.precedenceLines[place]? = some line ∧
      grammar.precedences.find? token = some ⟨place + 1, line.associativity⟩ := by
  obtain ⟨line, found, among⟩ := named
  exact ⟨line, found, (precedence_found built).2 ⟨place, line, found, among, rfl⟩⟩

theorem named_iff (built : declarations.build variant = .ok grammar) {token : String} :
    (∃ place, declarations.NamedAt place token) ↔ (grammar.precedences.find? token).isSome := by
  rw [Option.isSome_iff_exists]
  constructor
  · intro named
    obtain ⟨place, named⟩ := named
    obtain ⟨line, _, ranked⟩ := rank_of_named built named
    exact ⟨_, ranked⟩
  · intro ranked
    obtain ⟨precedence, ranked⟩ := ranked
    obtain ⟨place, line, found, among, _⟩ := (precedence_found built).1 ranked
    exact ⟨place, line, found, among⟩

end Lines

section Alternatives

theorem mem_alternatives_iff {alternative : Alternative} :
    alternative ∈ declarations.alternatives ↔
      ∃ headed ∈ declarations.headedAlternatives, headed.2 = alternative := by
  have paired : declarations.headedAlternatives.map (·.2) = declarations.alternatives :=
    alternatives_paired
  rw [← paired, List.mem_map]

theorem implicit_rule_unlike_terminal (built : declarations.build variant = .ok grammar)
    {symbol : Symbol} (terminal : symbol.isTerminal) : grammar.implicitRule ≠ some symbol := by
  obtain ⟨parts, _, rfl⟩ := build_eq_ok_iff.1 built
  intro implicit
  have nonterminal := (implicit_rule_index implicit).1
  rw [Symbol.isTerminal, nonterminal] at terminal
  cases terminal

theorem tokens_of_terminal (built : declarations.build variant = .ok grammar) {symbol : Symbol}
    (terminal : symbol.isTerminal) :
    (grammar.referencesOf [symbol]).filterMap (·.token?) = [symbol.name] := by
  have kept := implicit_rule_unlike_terminal built terminal
  simp [Grammar.referencesOf, kept, Symbol.reference_of_terminal terminal, Reference.token?]

theorem tokens_of_nonterminal (grammar : Grammar) {symbol : Symbol}
    (nonterminal : symbol.isTerminal = false) :
    (grammar.referencesOf [symbol]).filterMap (·.token?) = [] := by
  have reference := Symbol.reference_of_nonterminal nonterminal
  by_cases implicit : grammar.implicitRule = some symbol
  · simp [Grammar.referencesOf, implicit]
  · simp [Grammar.referencesOf, implicit, reference, Reference.token?]

/-- The scan of a right-hand side from its end meets the last ranked token that was referred to. -/
theorem scanned_precedence (built : declarations.build variant = .ok grammar)
    (symbols : List Symbol) :
    grammar.firstPrecedence symbols.reverse =
      (((grammar.referencesOf symbols).filterMap (·.token?)).filter fun token =>
        token ∈ declarations.rankedTokens).getLast?.bind grammar.precedences.find? := by
  induction symbols using List.reverseRecOn with
  | nil => rfl
  | append_singleton front last ih =>
      have references : grammar.referencesOf (front ++ [last]) =
          grammar.referencesOf front ++ grammar.referencesOf [last] := by
        simp [Grammar.referencesOf]
      rw [List.reverse_append, List.reverse_singleton, List.singleton_append, references,
        List.filterMap_append, List.filter_append, List.getLast?_append]
      cases kind : last.isTerminal with
      | false =>
          rw [grammar.first_precedence_of_nonterminal kind, tokens_of_nonterminal grammar kind, ih]
          rfl
      | true =>
          rw [grammar.first_precedence_of_terminal kind, tokens_of_terminal built kind, ih]
          by_cases ranked : last.name ∈ declarations.rankedTokens
          · obtain ⟨precedence, found⟩ := Option.isSome_iff_exists.1 ((ranked_iff built).1 ranked)
            simp [Grammar.precedenceOf, ranked, found]
          · have unranked : grammar.precedences.find? last.name = none := by
              rw [← Option.not_isSome_iff_eq_none, ← ranked_iff built]
              exact ranked
            simp [Grammar.precedenceOf, ranked, unranked]

theorem lent_precedence (built : declarations.build variant = .ok grammar)
    (production : Production) :
    grammar.productionPrecedence production =
      (declarations.lender? (grammar.alternativeOf production.clause)).bind
        grammar.precedences.find? := by
  unfold Grammar.productionPrecedence
  cases named : production.precedence with
  | some token =>
      have lender : declarations.lender? (grammar.alternativeOf production.clause) =
          some token := by
        simp [lender?, Grammar.alternativeOf, Production.clause, named]
      rw [lender]
      rfl
  | none =>
      rw [scanned_precedence built]
      simp [lender?, Grammar.alternativeOf, Production.clause, named, Alternative.tokens]

theorem production_of_alternative (built : declarations.build variant = .ok grammar)
    {place : Nat} {headed : Symbol × Alternative}
    (listed : declarations.headedAlternatives[place]? = some headed) :
    ∃ production ∈ grammar.productions, grammar.Tells place headed production := by
  obtain ⟨parts, accepted, rfl⟩ := build_eq_ok_iff.1 built
  have restored : parts.clauses.map (fun clause =>
      (clause.lhs, (declarations.grammarOf variant parts).alternativeOf clause)) =
        declarations.headedAlternatives := accepted.clauses_restored
  rw [← restored, List.getElem?_map, Option.map_eq_some_iff] at listed
  obtain ⟨clause, found, rfl⟩ := listed
  have clauses := congrArg (·[place]?) (clauses_of_grammar declarations variant parts)
  have inside := (List.getElem?_eq_some_iff.1 found).1
  simp only [List.getElem?_map, List.getElem?_append_left inside, found,
    Option.map_eq_some_iff] at clauses
  obtain ⟨production, numbered, rfl⟩ := clauses
  obtain ⟨present, entry⟩ := List.getElem?_eq_some_iff.1 numbered
  refine ⟨production, List.mem_of_getElem? numbered, ?_, rfl, rfl⟩
  exact require_eq_ok_iff.2 (entry ▸ item_of_nat present)

end Alternatives

section Decisions

variable {alternative : Alternative} {production : Production}

theorem rank_of_lent (built : declarations.build variant = .ok grammar)
    (told : grammar.alternativeOf production.clause = alternative) {place : Nat}
    (lent : declarations.LentAt place alternative) :
    ∃ line, declarations.precedenceLines[place]? = some line ∧
      grammar.productionPrecedence production = some ⟨place + 1, line.associativity⟩ := by
  obtain ⟨token, lender, named⟩ := lent
  obtain ⟨line, found, ranked⟩ := rank_of_named built named
  refine ⟨line, found, ?_⟩
  rw [lent_precedence built, told, lender]
  exact ranked

theorem lent_iff (built : declarations.build variant = .ok grammar)
    (told : grammar.alternativeOf production.clause = alternative) :
    (∃ place, declarations.LentAt place alternative) ↔
      (grammar.productionPrecedence production).isSome := by
  constructor
  · intro lent
    obtain ⟨place, lent⟩ := lent
    obtain ⟨line, _, ranked⟩ := rank_of_lent built told lent
    exact Option.isSome_iff_exists.2 ⟨_, ranked⟩
  · intro ranked
    rw [lent_precedence built, told] at ranked
    obtain ⟨precedence, ranked⟩ := Option.isSome_iff_exists.1 ranked
    obtain ⟨token, lender, found⟩ := Option.bind_eq_some_iff.1 ranked
    have known : (grammar.precedences.find? token).isSome := Option.isSome_iff_exists.2 ⟨_, found⟩
    obtain ⟨place, named⟩ := (named_iff built).2 known
    exact ⟨place, token, lender, named⟩

/-- The two precedences that are compared stand for the places of two lines. -/
theorem resolution_of_places (built : declarations.build variant = .ok grammar)
    (told : grammar.alternativeOf production.clause = alternative) {terminal : Symbol}
    {own other : Nat} (lent : declarations.LentAt own alternative)
    (named : declarations.NamedAt other terminal.name) :
    ∃ line rival, declarations.precedenceLines[own]? = some line ∧
      declarations.precedenceLines[other]? = some rival ∧
      grammar.resolution production terminal =
        PrecedenceTable.decide production terminal (some ⟨own + 1, line.associativity⟩)
          (some ⟨other + 1, rival.associativity⟩) := by
  obtain ⟨line, found, lentRank⟩ := rank_of_lent built told lent
  obtain ⟨rival, rivalFound, rank⟩ := rank_of_named built named
  refine ⟨line, rival, found, rivalFound, ?_⟩
  rw [Grammar.resolution, Grammar.precedenceOf, lentRank, rank]

theorem dictated (built : declarations.build variant = .ok grammar)
    (told : grammar.alternativeOf production.clause = alternative) (terminal : Symbol) :
    declarations.Dictates alternative production terminal
      (grammar.resolution production terminal) where
  unresolved_iff := by
    rw [lent_iff built told, named_iff built, Option.not_isSome_iff_eq_none,
      Option.not_isSome_iff_eq_none]
    exact PrecedenceTable.decide_unresolved_iff
  later_terminal := by
    intro own other lent named later
    obtain ⟨_, _, _, _, decided⟩ := resolution_of_places built told lent named
    have levels : (own + 1 : Int) < other + 1 := by omega
    rw [decided]
    simp [PrecedenceTable.decide, levels]
  later_alternative := by
    intro own other lent named later
    obtain ⟨_, _, _, _, decided⟩ := resolution_of_places built told lent named
    have levels : ¬ (own + 1 : Int) < other + 1 ∧ (other + 1 : Int) < own + 1 := by omega
    rw [decided]
    simp [PrecedenceTable.decide, levels]
  same_line := by
    intro place line found lent named
    obtain ⟨own, _, ownFound, _, decided⟩ := resolution_of_places built told lent named
    obtain rfl : own = line := Option.some.inj (ownFound.symm.trans found)
    rw [decided]
    cases own.associativity <;> simp [PrecedenceTable.decide]

end Decisions

/-- In a built grammar the precedence lines decide between each alternative and each terminal. -/
theorem lines_dictate_resolutions (built : declarations.build variant = .ok grammar) :
    ∃ table, PrecedenceTable.ofGrammar grammar = .ok table ∧
      ∀ (place : Nat) (headed : Symbol × Alternative),
        declarations.headedAlternatives[place]? = some headed →
        ∃ production, grammar.Tells place headed production ∧
          ∀ terminal ∈ grammar.terminals, ∃ resolution,
            table.resolveShiftReduce production terminal = .ok resolution ∧
            declarations.Dictates headed.2 production terminal resolution := by
  have whole := well_formed_of_build built
  refine ⟨_, PrecedenceTable.of_grammar_eq whole, ?_⟩
  intro place headed listed
  obtain ⟨production, member, tells⟩ := production_of_alternative built listed
  refine ⟨production, tells, ?_⟩
  intro terminal known
  exact ⟨_, PrecedenceTable.resolve_eq whole (productions_numbered_of_build built) member known,
    dictated built tells.alternative terminal⟩

section Signs

/-- A comparison with an unranked token behind it, and a sign that binds tighter than the token it
is written with. -/
def signDeclarations : Declarations where
  rules := [⟨"E", [
    ⟨[.rule "E", .token "<", .rule "E", .token "?"], none⟩,
    ⟨[.token "-", .rule "E"], some "neg"⟩,
    ⟨[.token "n"], none⟩]⟩]
  tokens := ["n", "?", "w"]
  precedenceLines := [⟨.nonassociative, ["<"]⟩, ⟨.left, ["-"]⟩, ⟨.right, ["neg"]⟩]
  implicitTokens := some ["w"]

def signs : Grammar where
  variant := .eco
  tokens := [⟨.terminal, 0, "n"⟩, ⟨.terminal, 1, "?"⟩, ⟨.terminal, 2, "w"⟩, ⟨.terminal, 3, "<"⟩,
    ⟨.terminal, 4, "-"⟩, ⟨.terminal, 5, "neg"⟩]
  eof := ⟨.terminal, 6, "$"⟩
  nonterminals := [⟨.nonterminal, 0, "E"⟩, ⟨.nonterminal, 1, "~"⟩, ⟨.nonterminal, 2, "E'"⟩]
  leading := [
    ⟨0, ⟨.nonterminal, 0, "E"⟩,
      [⟨.nonterminal, 0, "E"⟩, ⟨.terminal, 3, "<"⟩, ⟨.nonterminal, 1, "~"⟩,
        ⟨.nonterminal, 0, "E"⟩, ⟨.terminal, 1, "?"⟩, ⟨.nonterminal, 1, "~"⟩], none⟩,
    ⟨1, ⟨.nonterminal, 0, "E"⟩,
      [⟨.terminal, 4, "-"⟩, ⟨.nonterminal, 1, "~"⟩, ⟨.nonterminal, 0, "E"⟩], some "neg"⟩,
    ⟨2, ⟨.nonterminal, 0, "E"⟩, [⟨.terminal, 0, "n"⟩, ⟨.nonterminal, 1, "~"⟩], none⟩,
    ⟨3, ⟨.nonterminal, 1, "~"⟩, [⟨.terminal, 2, "w"⟩, ⟨.nonterminal, 1, "~"⟩], none⟩,
    ⟨4, ⟨.nonterminal, 1, "~"⟩, [], none⟩]
  startProduction := ⟨5, ⟨.nonterminal, 2, "E'"⟩,
    [⟨.nonterminal, 1, "~"⟩, ⟨.nonterminal, 0, "E"⟩, ⟨.terminal, 6, "$"⟩], none⟩
  start := ⟨.nonterminal, 0, "E"⟩
  implicitRule := some ⟨.nonterminal, 1, "~"⟩
  precedences := .ofPairs [("<", ⟨1, .nonassociative⟩), ("-", ⟨2, .left⟩), ("neg", ⟨3, .right⟩)]
  errorTexts := ∅

theorem signs_built : signDeclarations.build .eco = .ok signs := by
  rfl

/-- Two comparisons in a row are left undecided, and a minus does not reach into a sign. -/
theorem resolutions_of_signs :
    signDeclarations.build .eco = .ok signs ∧
      signDeclarations.headedAlternatives[0]? =
        some (⟨.nonterminal, 0, "E"⟩, ⟨[.rule "E", .token "<", .rule "E", .token "?"], none⟩) ∧
      signDeclarations.headedAlternatives[1]? =
        some (⟨.nonterminal, 0, "E"⟩, ⟨[.token "-", .rule "E"], some "neg"⟩) ∧
      ∃ table, PrecedenceTable.ofGrammar signs = .ok table ∧
        table.resolveShiftReduce signs.leading[0] ⟨.terminal, 3, "<"⟩ =
          .ok ⟨none, signs.leading[0],
            some (.ambiguousNonassoc signs.leading[0] ⟨.terminal, 3, "<"⟩)⟩ ∧
        table.resolveShiftReduce signs.leading[1] ⟨.terminal, 4, "-"⟩ =
          .ok ⟨some .reduce, signs.leading[1], none⟩ := by
  obtain ⟨table, ranked, dictated⟩ := lines_dictate_resolutions signs_built
  refine ⟨signs_built, rfl, rfl, table, ranked, ?_, ?_⟩
  · obtain ⟨production, tells, each⟩ := dictated 0 _ rfl
    obtain rfl : signs.leading[0] = production := Except.ok.inj tells.number
    obtain ⟨resolution, resolved, dictates⟩ := each ⟨.terminal, 3, "<"⟩ (by decide)
    have named : signDeclarations.NamedAt 0 "<" := ⟨_, rfl, by decide⟩
    rw [resolved, dictates.same_line 0 _ rfl ⟨"<", by decide, named⟩ named]
  · obtain ⟨production, tells, each⟩ := dictated 1 _ rfl
    obtain rfl : signs.leading[1] = production := Except.ok.inj tells.number
    obtain ⟨resolution, resolved, dictates⟩ := each ⟨.terminal, 4, "-"⟩ (by decide)
    have sign : signDeclarations.NamedAt 2 "neg" := ⟨_, rfl, by decide⟩
    have minus : signDeclarations.NamedAt 1 "-" := ⟨_, rfl, by decide⟩
    rw [resolved, dictates.later_alternative 2 1 ⟨"neg", by decide, sign⟩ minus (by decide)]

end Signs

end Declarations

end GrammarKit
