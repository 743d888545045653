import GrammarKit.Analysis.PrecedenceTable
import GrammarKit.Proofs.Follow.Textbook
import GrammarKit.Proofs.Rules

/-!
# Precedences and their clashes

In a well-formed grammar every terminal and every production finds its precedence in the table. The
findings of the table are the productions that end in a nonterminal, each with the terminals of its
own non-associative level that can follow its head.
-/

namespace GrammarKit

set_option autoImplicit false

namespace Production

def EndsInNonterminal (production : Production) : Prop :=
  ∃ symbol ∈ production.rhs.getLast?, symbol.isTerminal = false

end Production

namespace Grammar

def precedenceOf (grammar : Grammar) (terminal : Symbol) : Option Precedence :=
  grammar.precedences.find? terminal.name

/-- The precedence of the first terminal that has one. -/
def firstPrecedence (grammar : Grammar) (symbols : List Symbol) : Option Precedence :=
  symbols.findSome? fun symbol => if symbol.isTerminal then grammar.precedenceOf symbol else none

theorem first_precedence_append (grammar : Grammar) (left right : List Symbol) :
    grammar.firstPrecedence (left ++ right) =
      (grammar.firstPrecedence left).or (grammar.firstPrecedence right) := List.findSome?_append

theorem first_precedence_of_terminal (grammar : Grammar) {symbol : Symbol}
    (terminal : symbol.isTerminal) (rest : List Symbol) :
    grammar.firstPrecedence (symbol :: rest) =
      (grammar.precedenceOf symbol).or (grammar.firstPrecedence rest) := by
  simp only [firstPrecedence, List.findSome?_cons, if_pos terminal]
  cases grammar.precedenceOf symbol <;> rfl

theorem first_precedence_of_nonterminal (grammar : Grammar) {symbol : Symbol}
    (nonterminal : symbol.isTerminal = false) (rest : List Symbol) :
    grammar.firstPrecedence (symbol :: rest) = grammar.firstPrecedence rest := by
  simp [firstPrecedence, nonterminal]

def productionPrecedence (grammar : Grammar) (production : Production) : Option Precedence :=
  match production.precedence with
  | some name => grammar.precedences.find? name
  | none => grammar.firstPrecedence production.rhs.reverse

/-- A terminal that can follow the head of a production and is on one non-associative level with the
production. -/
def Clashes (grammar : Grammar) (production : Production) (terminal : Symbol) : Prop :=
  ∃ precedence, grammar.productionPrecedence production = some precedence ∧
    precedence.associativity = .nonassociative ∧
    grammar.precedenceOf terminal = some precedence ∧ grammar.Follows production.lhs terminal

open scoped Classical in
/-- The clashes of a production that ends in a nonterminal, by terminal. -/
noncomputable def clashesOf (grammar : Grammar) (production : Production) : List Diagnostic :=
  (grammar.terminals.filter fun terminal => production.EndsInNonterminal ∧
    grammar.Clashes production terminal).map (.ambiguousNonassoc production)

theorem mem_clashes_of {grammar : Grammar} {production : Production} {finding : Diagnostic} :
    finding ∈ grammar.clashesOf production ↔ production.EndsInNonterminal ∧
      ∃ terminal ∈ grammar.terminals, grammar.Clashes production terminal ∧
        finding = .ambiguousNonassoc production terminal := by
  simp only [clashesOf, List.mem_map, List.mem_filter, decide_eq_true_eq]
  constructor
  · intro listed
    obtain ⟨terminal, ⟨known, ends, clashes⟩, rfl⟩ := listed
    exact ⟨ends, terminal, known, clashes, rfl⟩
  · intro found
    obtain ⟨ends, terminal, known, clashes, rfl⟩ := found
    exact ⟨terminal, ⟨known, ends, clashes⟩, rfl⟩

/-- Some finding of the grammar names the terminal and the production of this number. -/
def ReportsClash (grammar : Grammar) (number : Int) (terminal : Symbol) : Prop :=
  ∃ table follows found, PrecedenceTable.ofGrammar grammar = .ok table ∧
    (FollowTable.ofGrammar grammar).outcome = .ok follows ∧
    table.ambiguities follows = .ok found ∧
    ∃ production, production.index = number ∧
      Diagnostic.ambiguousNonassoc production terminal ∈ found

end Grammar

namespace PrecedenceTable

/-- The table of a well-formed grammar. -/
def complete (grammar : Grammar) : PrecedenceTable where
  grammar := grammar
  tokens := grammar.terminals.map grammar.precedenceOf
  productions := grammar.productions.map grammar.productionPrecedence

variable {grammar : Grammar}

section Lookup

variable (whole : grammar.WellFormed)

include whole

theorem token_item {terminal : Symbol} (member : terminal ∈ grammar.terminals) :
    item? (grammar.terminals.map grammar.precedenceOf) terminal.index =
      some (grammar.precedenceOf terminal) := by
  rw [item_map, item_at_index whole.terminals_numbered member]
  rfl

theorem nearest_eq {symbols : List Symbol} (known : grammar.KnowsAll symbols) :
    nearest (grammar.terminals.map grammar.precedenceOf) symbols =
      .ok (grammar.firstPrecedence symbols) := by
  induction symbols with
  | nil => rfl
  | cons symbol rest ih =>
      rw [nearest, ih known.tail]
      cases kind : symbol.isTerminal with
      | true =>
          have member := whole.terminal_known (known symbol (by simp)) kind
          rw [if_pos rfl, token_item whole member, grammar.first_precedence_of_terminal kind]
          cases grammar.precedenceOf symbol <;> rfl
      | false =>
          rw [if_neg (by simp), grammar.first_precedence_of_nonterminal kind]

theorem of_grammar_eq : ofGrammar grammar = .ok (complete grammar) := by
  have selected : grammar.productions.mapM
      (select grammar (grammar.terminals.map grammar.precedenceOf)) =
        .ok (grammar.productions.map grammar.productionPrecedence) := by
    apply except_map_m_ok
    intro production member
    unfold select Grammar.productionPrecedence
    cases production.precedence with
    | some name => rfl
    | none =>
        apply nearest_eq whole
        intro symbol among
        exact whole.bodies_known production member symbol (List.mem_reverse.1 among)
  change (grammar.productions.mapM
    (select grammar (grammar.terminals.map grammar.precedenceOf)) >>= fun _ => _) = _
  rw [selected]
  rfl

theorem of_token_eq {terminal : Symbol} (member : terminal ∈ grammar.terminals) :
    (complete grammar).ofToken terminal = .ok (grammar.precedenceOf terminal) :=
  require_eq_ok_iff.2 (token_item whole member)

end Lookup

theorem of_production_eq (numbered : grammar.ProductionsNumbered) {production : Production}
    (member : production ∈ grammar.productions) :
    (complete grammar).ofProduction production = .ok (grammar.productionPrecedence production) := by
  apply require_eq_ok_iff.2
  change item? (grammar.productions.map grammar.productionPrecedence) production.index = _
  rw [item_map, numbered.item member]
  rfl

section Findings

variable (whole : grammar.WellFormed)

include whole

theorem indices_of_terminals {following : IndexSet}
    (terminals : ∀ index ∈ following, ∃ terminal ∈ grammar.terminals, terminal.index = index) :
    following.toList =
      (grammar.terminals.filter fun terminal => terminal.index ∈ following).map (·.index) := by
  have ascending : ((grammar.terminals.filter fun terminal =>
      terminal.index ∈ following).map (·.index)).Pairwise (· < ·) := by
    rw [List.pairwise_map]
    exact whole.terminals_numbered.ascending.filter _
  have same : following = ⟨_, ascending⟩ := by
    apply SortedSet.eq_of_same_members
    intro index
    change index ∈ following ↔ index ∈ List.map _ _
    rw [List.mem_map]
    constructor
    · intro found
      obtain ⟨terminal, member, named⟩ := terminals index found
      exact ⟨terminal, List.mem_filter.2 ⟨member, by simpa [named] using found⟩, named⟩
    · intro listed
      obtain ⟨terminal, member, rfl⟩ := listed
      simpa using (List.mem_filter.1 member).2
  exact congrArg SortedSet.toList same

theorem clashes_eq (production : Production) (precedence : Precedence) {following : IndexSet}
    (terminals : ∀ index ∈ following, ∃ terminal ∈ grammar.terminals, terminal.index = index) :
    (complete grammar).clashes production precedence following =
      .ok ((grammar.terminals.filter fun terminal => terminal.index ∈ following ∧
        grammar.precedenceOf terminal = some precedence).map (.ambiguousNonassoc production)) := by
  have each : ∀ terminal ∈ grammar.terminals.filter fun terminal => terminal.index ∈ following,
      (do
        if (← require (item? (complete grammar).tokens terminal.index) .outsideTable) =
            some precedence then
          let terminal ← (complete grammar).grammar.terminal terminal.index
          return [Diagnostic.ambiguousNonassoc production terminal]
        else return [] : Except Fault (List Diagnostic)) =
      .ok (if grammar.precedenceOf terminal = some precedence then
        [.ambiguousNonassoc production terminal] else []) := by
    intro terminal member
    have known := (List.mem_filter.1 member).1
    have ranked : item? (complete grammar).tokens terminal.index =
        some (grammar.precedenceOf terminal) := token_item whole known
    have named : (complete grammar).grammar.terminal terminal.index = .ok terminal :=
      require_eq_ok_iff.2 (item_at_index whole.terminals_numbered known)
    rw [ranked, named]
    change (if _ then _ else _) = _
    split <;> rfl
  unfold clashes
  rw [indices_of_terminals whole terminals, List.mapM_map]
  refine (except_map_m_filtered each).trans ?_
  rw [List.filter_filter]
  simp [Bool.and_comm]

variable {follows : FollowTable} (exact : follows.Exact grammar)
  (numbered : grammar.ProductionsNumbered)

include exact numbered

theorem ambiguities_of_eq {production : Production} (member : production ∈ grammar.productions) :
    (complete grammar).ambiguitiesOf follows production = .ok (grammar.clashesOf production) := by
  have head := whole.heads_known production member
  have none_found (safe : ∀ terminal, production.EndsInNonterminal →
      ¬grammar.Clashes production terminal) : grammar.clashesOf production = [] := by
    unfold Grammar.clashesOf
    rw [List.map_eq_nil_iff, List.filter_eq_nil_iff]
    intro terminal _
    simpa using safe terminal
  unfold ambiguitiesOf
  rw [of_production_eq numbered member]
  cases ranked : grammar.productionPrecedence production with
  | none =>
      rw [none_found]
      · rfl
      · intro terminal _ clash
        obtain ⟨precedence, own, _⟩ := clash
        rw [ranked] at own
        cases own
  | some precedence =>
      cases ending : production.rhs.getLast? with
      | none =>
          rw [none_found]
          · rfl
          · intro terminal ends
            obtain ⟨final, last, _⟩ := ends
            rw [ending] at last
            cases last
      | some final =>
          have ends_iff : production.EndsInNonterminal ↔ final.isNonterminal := by
            simp [Production.EndsInNonterminal, ending, Symbol.isNonterminal]
          change (if precedence.associativity = .nonassociative ∧ final.isNonterminal then _
            else _) = _
          by_cases suspect : precedence.associativity = .nonassociative ∧ final.isNonterminal
          · simp only [if_pos suspect]
            rw [FollowTable.of_symbol_eq whole exact.size head]
            refine (clashes_eq whole production precedence
              (exact.tokens_known production.lhs head)).trans ?_
            unfold Grammar.clashesOf
            congr 2
            apply List.filter_congr
            intro terminal known
            have follows := exact.follows_iff production.lhs head terminal known
            rw [decide_eq_decide]
            simp [Grammar.Clashes, ranked, ends_iff, suspect, follows, and_comm]
          · simp only [if_neg suspect]
            rw [none_found]
            · rfl
            · intro terminal ends clash
              obtain ⟨level, own, associativity, _⟩ := clash
              obtain rfl := Option.some.inj (ranked.symm.trans own)
              exact suspect ⟨associativity, ends_iff.1 ends⟩

theorem ambiguities_eq :
    (complete grammar).ambiguities follows =
      .ok (grammar.productions.flatMap grammar.clashesOf) :=
  except_bind_eq_ok_iff.2 ⟨_, except_map_m_ok fun _ member =>
    ambiguities_of_eq whole exact numbered member, rfl⟩

end Findings

end PrecedenceTable

/-- A clash is reported for a production that ends in a nonterminal, and for no other. -/
theorem Grammar.reports_clash_iff {grammar : Grammar} (whole : grammar.WellFormed)
    (numbered : grammar.ProductionsNumbered) {production : Production}
    (member : production ∈ grammar.productions) {terminal : Symbol} :
    grammar.ReportsClash production.index terminal ↔ production.EndsInNonterminal ∧
      terminal ∈ grammar.terminals ∧ grammar.Clashes production terminal := by
  obtain ⟨follows, followed, exact⟩ := FollowTable.of_grammar_outcome whole
  have asked := PrecedenceTable.ambiguities_eq whole exact numbered
  constructor
  · intro reported
    rcases reported with ⟨table, others, listed, made, again, answered, other, same, inside⟩
    obtain rfl := Except.ok.inj ((PrecedenceTable.of_grammar_eq whole).symm.trans made)
    obtain rfl := Except.ok.inj (followed.symm.trans again)
    obtain rfl := Except.ok.inj (asked.symm.trans answered)
    obtain ⟨own, among, inside⟩ := List.mem_flatMap.1 inside
    obtain ⟨ends, token, known, clashes, finding⟩ := mem_clashes_of.1 inside
    rw [Diagnostic.ambiguousNonassoc.injEq] at finding
    rcases finding with ⟨rfl, rfl⟩
    rw [← numbered.eq_of_same_index among member same]
    exact ⟨ends, known, clashes⟩
  · intro clash
    rcases clash with ⟨ends, known, clashes⟩
    exact ⟨_, follows, _, PrecedenceTable.of_grammar_eq whole, followed, asked, production, rfl,
      List.mem_flatMap.2 ⟨production, member,
        mem_clashes_of.2 ⟨ends, terminal, known, clashes, rfl⟩⟩⟩

end GrammarKit
