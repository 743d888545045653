import GrammarKit.Proofs.Resolution.Lines

/-!
# Only the order of used precedences counts

Two declarations of the same rules may number their levels and their tokens in different ways, and
may rank further tokens. They decide alike as long as the tokens that some alternative mentions are
ranked alike: the same ones, with the same associativity and in the same order. Lines that agree
once all other tokens are struck out rank them alike.
-/

namespace GrammarKit

set_option autoImplicit false

/-- The lines with no tokens but those to be kept. Lines that have none of these are left out. -/
def linesAmong (keep : String → Bool) (lines : List PrecedenceLine) : List PrecedenceLine :=
  (lines.map fun line => { line with tokens := line.tokens.filter keep }).filter
    fun line => line.tokens ≠ []

namespace Grammar

/-- Both tokens are ranked, and the first one binds less tightly. -/
def Looser (grammar : Grammar) (first second : String) : Prop :=
  ∃ low ∈ grammar.precedences.find? first, ∃ high ∈ grammar.precedences.find? second,
    low.level < high.level

/-- The same of these tokens are ranked, with the same associativity and in the same order. -/
structure RanksAlike (left right : Grammar) (used : String → Prop) : Prop where
  associativity : ∀ token, used token →
    (left.precedences.find? token).map (·.associativity) =
      (right.precedences.find? token).map (·.associativity)
  order : ∀ first second, used first → used second →
    (left.Looser first second ↔ right.Looser first second)

end Grammar

namespace Declarations

/-- The token stands in some alternative or is named to lend one its precedence. -/
def Mentions (declarations : Declarations) (token : String) : Prop :=
  ∃ alternative ∈ declarations.alternatives,
    .token token ∈ alternative.references ∨ alternative.precedence = some token

/-- Both grammars take each alternative and each used token for the same decision. -/
structure ResolvesAlike (declarations : Declarations) (used : String → Prop)
    (left right : Grammar) : Prop where
  mentioned_known : ∀ token, declarations.Mentions token →
    (∃ terminal ∈ left.terminals, terminal.name = token) ∧
      ∃ terminal ∈ right.terminals, terminal.name = token
  resolutions : ∃ leftTable rightTable,
    PrecedenceTable.ofGrammar left = .ok leftTable ∧
    PrecedenceTable.ofGrammar right = .ok rightTable ∧
    ∀ (place : Nat) (headed : Symbol × Alternative),
      declarations.headedAlternatives[place]? = some headed →
      ∃ leftProduction rightProduction, left.Tells place headed leftProduction ∧
        right.Tells place headed rightProduction ∧
        ∀ leftTerminal ∈ left.terminals, ∀ rightTerminal ∈ right.terminals,
          leftTerminal.name = rightTerminal.name → used leftTerminal.name →
          ∃ leftResolution rightResolution,
            leftTable.resolveShiftReduce leftProduction leftTerminal = .ok leftResolution ∧
            rightTable.resolveShiftReduce rightProduction rightTerminal = .ok rightResolution ∧
            leftResolution.action = rightResolution.action ∧
            leftResolution.isResolved = rightResolution.isResolved

end Declarations

/-- A decision depends on which of the two precedences there are, on how they compare and on the
associativity of the first one. -/
theorem PrecedenceTable.decide_alike {production other : Production} {token lookahead : Symbol}
    {leftOwn rightOwn leftRank rightRank : Option Precedence}
    (owned : leftOwn.map (·.associativity) = rightOwn.map (·.associativity))
    (known : leftRank.isSome = rightRank.isSome)
    (below : (∃ low ∈ leftOwn, ∃ high ∈ leftRank, low.level < high.level) ↔
      ∃ low ∈ rightOwn, ∃ high ∈ rightRank, low.level < high.level)
    (above : (∃ low ∈ leftRank, ∃ high ∈ leftOwn, low.level < high.level) ↔
      ∃ low ∈ rightRank, ∃ high ∈ rightOwn, low.level < high.level) :
    (decide production token leftOwn leftRank).action =
        (decide other lookahead rightOwn rightRank).action ∧
      (decide production token leftOwn leftRank).isResolved =
        (decide other lookahead rightOwn rightRank).isResolved := by
  cases leftOwn with
  | none =>
      cases rightOwn with
      | none => exact ⟨rfl, rfl⟩
      | some _ => cases owned
  | some own =>
      cases rightOwn with
      | none => cases owned
      | some changedOwn =>
          have associativity : own.associativity = changedOwn.associativity :=
            Option.some.inj owned
          cases leftRank with
          | none =>
              cases rightRank with
              | none => exact ⟨rfl, rfl⟩
              | some _ => cases known
          | some rank =>
              cases rightRank with
              | none => cases known
              | some changedRank =>
                  simp only [Option.mem_some_iff, exists_eq_left'] at below above
                  simp only [decide, below, above, associativity]
                  split
                  · exact ⟨rfl, rfl⟩
                  · split
                    · exact ⟨rfl, rfl⟩
                    · cases changedOwn.associativity <;> exact ⟨rfl, rfl⟩

namespace Grammar.RanksAlike

variable {left right : Grammar} {used : String → Prop} (ranks : left.RanksAlike right used)

include ranks

theorem ranked {token : String} (known : used token) :
    (left.precedences.find? token).isSome = (right.precedences.find? token).isSome := by
  have associativity := congrArg Option.isSome (ranks.associativity token known)
  rwa [Option.isSome_map, Option.isSome_map] at associativity

theorem decisions {lender : Option String} (lent : ∀ name ∈ lender, used name) {token : String}
    (known : used token) {production other : Production} {terminal lookahead : Symbol} :
    (PrecedenceTable.decide production terminal (lender.bind left.precedences.find?)
        (left.precedences.find? token)).action =
      (PrecedenceTable.decide other lookahead (lender.bind right.precedences.find?)
        (right.precedences.find? token)).action ∧
    (PrecedenceTable.decide production terminal (lender.bind left.precedences.find?)
        (left.precedences.find? token)).isResolved =
      (PrecedenceTable.decide other lookahead (lender.bind right.precedences.find?)
        (right.precedences.find? token)).isResolved := by
  cases lender with
  | none => exact ⟨rfl, rfl⟩
  | some name =>
      exact PrecedenceTable.decide_alike (ranks.associativity name (lent name rfl))
        (ranks.ranked known) (ranks.order name token (lent name rfl) known)
        (ranks.order token name known (lent name rfl))

end Grammar.RanksAlike

namespace Declarations

variable {left right declarations : Declarations} {variant : Variant} {grammar other : Grammar}
  {used : String → Prop}

theorem mentions_of_lender {alternative : Alternative}
    (listed : alternative ∈ declarations.alternatives) {token : String}
    (lender : declarations.lender? alternative = some token) : declarations.Mentions token := by
  refine ⟨alternative, listed, ?_⟩
  rcases Option.or_eq_some_iff.1 lender with named | ⟨_, last⟩
  · exact Or.inr named
  · have among := (List.mem_filter.1 (List.mem_of_getLast? last)).1
    exact Or.inl (Alternative.mem_tokens_iff.1 among)

theorem declared_of_mentioned (valid : declarations.Valid variant) {token : String}
    (mentioned : declarations.Mentions token) : token ∈ declarations.declaredTokens := by
  obtain ⟨alternative, listed, stands | lent⟩ := mentioned
  · exact valid.references_defined alternative listed _ stands
  · exact List.mem_append_right _ (valid.precedences_known alternative listed token lent)

theorem mentioned_known (built : declarations.build variant = .ok grammar) {token : String}
    (mentioned : declarations.Mentions token) :
    ∃ terminal ∈ grammar.terminals, terminal.name = token := by
  have declared := declared_of_mentioned (valid_of_build built) mentioned
  obtain ⟨parts, _, rfl⟩ := build_eq_ok_iff.1 built
  have named : token ∈ (declarations.grammarOf variant parts).terminals.map (·.name) := by
    rw [terminal_names]
    exact List.mem_append_left _ (mem_token_names.2 declared)
  exact List.mem_map.1 named

theorem same_lender (leftBuilt : left.build variant = .ok grammar)
    (rightBuilt : right.build variant = .ok other) (ranks : grammar.RanksAlike other used)
    (covered : ∀ token, left.Mentions token → used token) {alternative : Alternative}
    (listed : alternative ∈ left.alternatives) :
    right.lender? alternative = left.lender? alternative := by
  unfold lender?
  congr 2
  apply List.filter_congr
  intro token among
  have known := covered token ⟨alternative, listed, Or.inl (Alternative.mem_tokens_iff.1 among)⟩
  rw [decide_eq_decide, ranked_iff leftBuilt, ranked_iff rightBuilt, ranks.ranked known]

/-- Grammars of the same rules that rank the mentioned tokens alike resolve alike. -/
theorem alike_of_ranks (leftBuilt : left.build variant = .ok grammar)
    (rightBuilt : right.build variant = .ok other) (rules : right.rules = left.rules)
    (covered : ∀ token, left.Mentions token → used token)
    (ranks : grammar.RanksAlike other used) : left.ResolvesAlike used grammar other where
  mentioned_known := by
    intro token mentioned
    have again : right.Mentions token := by
      unfold Mentions alternatives
      rw [rules]
      exact mentioned
    exact ⟨mentioned_known leftBuilt mentioned, mentioned_known rightBuilt again⟩
  resolutions := by
    have leftWhole := well_formed_of_build leftBuilt
    have rightWhole := well_formed_of_build rightBuilt
    have same : right.headedAlternatives = left.headedAlternatives := by
      unfold headedAlternatives ruleSymbols ruleNames
      rw [rules]
    refine ⟨_, _, PrecedenceTable.of_grammar_eq leftWhole,
      PrecedenceTable.of_grammar_eq rightWhole, ?_⟩
    intro place headed listed
    obtain ⟨leftProduction, leftMember, leftTells⟩ := production_of_alternative leftBuilt listed
    obtain ⟨rightProduction, rightMember, rightTells⟩ :=
      production_of_alternative rightBuilt (same ▸ listed)
    refine ⟨leftProduction, rightProduction, leftTells, rightTells, ?_⟩
    intro leftTerminal leftKnown rightTerminal rightKnown named known
    refine ⟨_, _,
      PrecedenceTable.resolve_eq leftWhole (productions_numbered_of_build leftBuilt) leftMember
        leftKnown,
      PrecedenceTable.resolve_eq rightWhole (productions_numbered_of_build rightBuilt) rightMember
        rightKnown, ?_⟩
    have among : headed.2 ∈ left.alternatives :=
      mem_alternatives_iff.2 ⟨headed, List.mem_of_getElem? listed, rfl⟩
    unfold Grammar.resolution Grammar.precedenceOf
    rw [lent_precedence leftBuilt, lent_precedence rightBuilt, leftTells.alternative,
      rightTells.alternative, same_lender leftBuilt rightBuilt ranks covered among, ← named]
    have lent := fun token lender => covered token (mentions_of_lender among lender)
    exact ranks.decisions lent known

end Declarations

section Lines

variable {keep : String → Bool} {lines : List PrecedenceLine}

/-- A token of one line comes before a token of a later one. -/
def Separates (lines : List PrecedenceLine) (first second : String) : Prop :=
  ∃ front back, lines = front ++ back ∧ (∃ line ∈ front, first ∈ line.tokens) ∧
    ∃ line ∈ back, second ∈ line.tokens

theorem lines_among_append (keep : String → Bool) (front back : List PrecedenceLine) :
    linesAmong keep (front ++ back) = linesAmong keep front ++ linesAmong keep back := by
  simp [linesAmong]

theorem lines_among_cons_of_none {line : PrecedenceLine}
    (none_kept : ∀ token ∈ line.tokens, keep token = false) (rest : List PrecedenceLine) :
    linesAmong keep (line :: rest) = linesAmong keep rest := by
  have nothing : line.tokens.filter keep = [] := by
    rw [List.filter_eq_nil_iff]
    intro token among
    simp [none_kept token among]
  simp [linesAmong, nothing]

theorem tokens_of_lines_among (keep : String → Bool) (lines : List PrecedenceLine) :
    (linesAmong keep lines).flatMap (·.tokens) = (lines.flatMap (·.tokens)).filter keep := by
  induction lines with
  | nil => rfl
  | cons line rest ih =>
      rw [List.flatMap_cons, List.filter_append, ← ih]
      by_cases kept : line.tokens.filter keep = []
      · simp [linesAmong, kept]
      · simp [linesAmong, kept]

theorem line_kept {token : String} (kept : keep token) (holds : Associativity → Prop)
    (lines : List PrecedenceLine) :
    (∃ line ∈ linesAmong keep lines, token ∈ line.tokens ∧ holds line.associativity) ↔
      ∃ line ∈ lines, token ∈ line.tokens ∧ holds line.associativity := by
  unfold linesAmong
  constructor
  · intro found
    obtain ⟨line, listed, among, told⟩ := found
    obtain ⟨whole, whole_listed, rfl⟩ := List.mem_map.1 (List.mem_filter.1 listed).1
    exact ⟨whole, whole_listed, (List.mem_filter.1 among).1, told⟩
  · intro found
    obtain ⟨line, listed, among, told⟩ := found
    have inside : token ∈ line.tokens.filter keep := List.mem_filter.2 ⟨among, kept⟩
    refine ⟨{ line with tokens := line.tokens.filter keep }, ?_, inside, told⟩
    apply List.mem_filter.2
    constructor
    · exact List.mem_map_of_mem listed
    · simpa using List.ne_nil_of_mem inside

theorem separates_kept {first second : String} (firstKept : keep first) (secondKept : keep second)
    (lines : List PrecedenceLine) :
    Separates (linesAmong keep lines) first second ↔ Separates lines first second := by
  have stands {token : String} (kept : keep token) (part : List PrecedenceLine) :
      (∃ line ∈ linesAmong keep part, token ∈ line.tokens) ↔
        ∃ line ∈ part, token ∈ line.tokens := by
    simpa using line_kept kept (fun _ => True) part
  constructor
  · intro separated
    obtain ⟨front, back, shape, before, behind⟩ := separated
    obtain ⟨leftPart, rightPart, parts, rfl, rfl⟩ := List.filter_eq_append_iff.1 shape
    obtain ⟨left, right, rfl, rfl, rfl⟩ := List.map_eq_append_iff.1 parts
    exact ⟨left, right, rfl, (stands firstKept left).1 before, (stands secondKept right).1 behind⟩
  · intro separated
    obtain ⟨front, back, rfl, before, behind⟩ := separated
    exact ⟨_, _, lines_among_append keep front back, (stands firstKept front).2 before,
      (stands secondKept back).2 behind⟩

end Lines

namespace Declarations

section Ranks

variable {left right declarations : Declarations} {variant : Variant} {grammar other : Grammar}
  {used : String → Prop}

theorem associativity_iff (built : declarations.build variant = .ok grammar) {token : String}
    {associativity : Associativity} :
    (grammar.precedences.find? token).map (·.associativity) = some associativity ↔
      ∃ line ∈ declarations.precedenceLines,
        token ∈ line.tokens ∧ line.associativity = associativity := by
  rw [Option.map_eq_some_iff]
  constructor
  · intro ranked
    obtain ⟨precedence, found, rfl⟩ := ranked
    obtain ⟨place, line, listed, among, rfl⟩ := (precedence_found built).1 found
    exact ⟨line, List.mem_of_getElem? listed, among, rfl⟩
  · intro stands
    obtain ⟨line, listed, among, rfl⟩ := stands
    obtain ⟨place, found⟩ := List.mem_iff_getElem?.1 listed
    exact ⟨_, (precedence_found built).2 ⟨place, line, found, among, rfl⟩, rfl⟩

theorem looser_iff (built : declarations.build variant = .ok grammar) {first second : String} :
    grammar.Looser first second ↔ Separates declarations.precedenceLines first second := by
  constructor
  · intro looser
    obtain ⟨low, lowFound, high, highFound, below⟩ := looser
    obtain ⟨place, line, listed, among, rfl⟩ := (precedence_found built).1 lowFound
    obtain ⟨later, lateLine, lateListed, lateAmong, rfl⟩ := (precedence_found built).1 highFound
    have order : place < later := by
      simp only at below
      omega
    refine ⟨declarations.precedenceLines.take later, declarations.precedenceLines.drop later,
      (List.take_append_drop later _).symm, ⟨line, ?_, among⟩, ⟨lateLine, ?_, lateAmong⟩⟩
    · apply List.mem_iff_getElem?.2
      exact ⟨place, by rw [List.getElem?_take, if_pos order, listed]⟩
    · apply List.mem_iff_getElem?.2
      exact ⟨0, by rw [List.getElem?_drop, Nat.add_zero, lateListed]⟩
  · intro separated
    obtain ⟨front, back, shape, ⟨line, listed, among⟩, lateLine, lateListed, lateAmong⟩ :=
      separated
    obtain ⟨place, inside, rfl⟩ := List.getElem_of_mem listed
    obtain ⟨later, lateInside, rfl⟩ := List.getElem_of_mem lateListed
    have found : declarations.precedenceLines[place]? = some front[place] := by
      rw [shape, List.getElem?_append_left inside, List.getElem?_eq_getElem inside]
    have lateFound : declarations.precedenceLines[front.length + later]? = some back[later] := by
      rw [shape, List.getElem?_append_right (Nat.le_add_right _ _), Nat.add_sub_cancel_left,
        List.getElem?_eq_getElem lateInside]
    refine ⟨_, (precedence_found built).2 ⟨_, _, found, among, rfl⟩, _,
      (precedence_found built).2 ⟨_, _, lateFound, lateAmong, rfl⟩, ?_⟩
    simp only
    omega

theorem ranks_alike_of_lines (leftBuilt : left.build variant = .ok grammar)
    (rightBuilt : right.build variant = .ok other) {leftKeep rightKeep : String → Bool}
    (same : linesAmong rightKeep right.precedenceLines = linesAmong leftKeep left.precedenceLines)
    (kept : ∀ token, used token → leftKeep token ∧ rightKeep token) :
    grammar.RanksAlike other used where
  associativity := by
    intro token known
    apply Option.ext
    intro associativity
    have own := line_kept (kept token known).1 (· = associativity) left.precedenceLines
    have changed := line_kept (kept token known).2 (· = associativity) right.precedenceLines
    rw [same] at changed
    rw [associativity_iff leftBuilt, associativity_iff rightBuilt]
    exact own.symm.trans changed
  order := by
    intro first second firstKnown secondKnown
    have own := separates_kept (kept first firstKnown).1 (kept second secondKnown).1
      left.precedenceLines
    have changed := separates_kept (kept first firstKnown).2 (kept second secondKnown).2
      right.precedenceLines
    rw [same] at changed
    rw [looser_iff leftBuilt, looser_iff rightBuilt]
    exact own.symm.trans changed

end Ranks

end Declarations

end GrammarKit
