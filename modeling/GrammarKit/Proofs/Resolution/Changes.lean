import GrammarKit.Proofs.Resolution.Order

/-!
# Changes of precedences that change no decision

A precedence that is reported as unused can be taken back and its token declared without one, and a
line of new tokens can be put anywhere between the others. Either way the declarations stay valid,
though levels and tokens get other numbers, and the lines agree once the tokens in question are
struck out. Both are cases of one statement: only the order of used precedences counts.
-/

namespace GrammarKit

set_option autoImplicit false

/-- The precedences that a report says are unused, by token. -/
def Report.unusedPrecedences (report : Report) : List String :=
  report.diagnostics.filterMap fun
    | .unusedPrecedence name _ _ => some name
    | _ => none

namespace Declarations

/-- The second one declares the tokens without a precedence. Lines that lose all of their tokens may
stay or go. -/
structure Demotes (left : Declarations) (names : List String) (right : Declarations) : Prop where
  rules : right.rules = left.rules
  starts : right.starts = left.starts
  implicitTokens : right.implicitTokens = left.implicitTokens
  errorTexts : right.errorTexts = left.errorTexts
  tokens : ∀ token, token ∈ right.tokens ↔ token ∈ left.tokens ∨ token ∈ names
  lines : linesAmong (fun _ => true) right.precedenceLines =
    linesAmong (fun token => token ∉ names) left.precedenceLines

def withLines (declarations : Declarations) (lines : List PrecedenceLine) : Declarations :=
  { declarations with precedenceLines := lines }

/-- A line of tokens that nothing else declares. -/
structure FreshLine (declarations : Declarations) (line : PrecedenceLine) : Prop where
  once : line.tokens.Nodup
  unreserved : ∀ token ∈ line.tokens, token ≠ endOfInput
  no_rule : ∀ token ∈ line.tokens, token ∉ declarations.ruleNames
  undeclared : ∀ token ∈ line.tokens, token ∉ declarations.declaredTokens

section Demoted

variable {left right : Declarations} {variant : Variant} {grammar : Grammar}

/-- Further tokens and other precedence lines leave declarations valid, as long as the tokens that
are named to lend a precedence keep one. -/
theorem valid_of_more (valid : left.Valid variant) (rules : right.rules = left.rules)
    (starts : right.starts = left.starts)
    (implicitTokens : right.implicitTokens = left.implicitTokens)
    (errorTexts : right.errorTexts = left.errorTexts)
    (kept : ∀ token ∈ left.declaredTokens, token ∈ right.declaredTokens)
    (allowed : ∀ token ∈ right.declaredTokens, token ∈ left.declaredTokens ∨
      token ≠ endOfInput ∧ token ∉ left.ruleNames)
    (apart : right.rankedTokens.Nodup)
    (lenders : ∀ token, left.Mentions token → token ∈ left.rankedTokens →
      token ∈ right.rankedTokens) : right.Valid variant := by
  have names : right.ruleNames = left.ruleNames := congrArg (List.map _) rules
  have alternatives : right.alternatives = left.alternatives := congrArg (List.flatMap _) rules
  have tokens : ∀ token ∈ right.declaredTokens, token ≠ endOfInput ∧ token ∉ left.ruleNames := by
    intro token declared
    rcases allowed token declared with earlier | new
    · exact ⟨valid.tokens_unreserved token earlier, valid.tokens_no_rules token earlier⟩
    · exact new
  constructor
  · rw [rules]
    exact valid.rules_given
  · rw [names]
    exact valid.rules_distinct
  · rw [starts]
    exact valid.starts_agree
  · rw [starts, names]
    exact valid.starts_known
  · intro token declared
    exact (tokens token declared).1
  · rw [names]
    intro token declared
    exact (tokens token declared).2
  · exact apart
  · rw [alternatives]
    intro alternative listed reference among
    have defined := valid.references_defined alternative listed reference among
    cases reference with
    | rule name =>
        unfold Defines
        rw [names]
        exact defined
    | token name => exact kept name defined
    | stray text => exact defined
  · rw [alternatives]
    intro alternative listed token lent
    exact lenders token ⟨alternative, listed, Or.inr lent⟩
      (valid.precedences_known alternative listed token lent)
  · rw [errorTexts]
    intro name key
    exact kept name (valid.error_texts_known name key)
  · rw [implicitTokens]
    intro declared given
    obtain ⟨eco, known⟩ := valid.implicit_tokens_known declared given
    exact ⟨eco, fun name among => kept name (known name among)⟩

theorem built_of_valid (built : left.build variant = .ok grammar) (rules : right.rules = left.rules)
    (valid : right.Valid variant) : ∃ other, right.build variant = .ok other := by
  have named : right.NamesOnly := by
    unfold NamesOnly alternatives
    rw [rules]
    exact names_only_of_build built
  exact (build_accepts named).answered_iff.2 valid

theorem used_of_mentioned (built : left.build variant = .ok grammar) {terminal : Symbol}
    (known : terminal ∈ grammar.terminals) (mentioned : left.Mentions terminal.name) :
    grammar.Uses terminal := by
  have names := tells_names_of_build built
  obtain ⟨alternative, listed, mentioned⟩ := mentioned
  obtain ⟨headed, paired, rfl⟩ := mem_alternatives_iff.1 listed
  obtain ⟨place, found⟩ := List.mem_iff_getElem?.1 paired
  obtain ⟨production, member, tells⟩ := production_of_alternative built found
  refine ⟨production, member, ?_⟩
  rw [← tells.alternative] at mentioned
  rcases mentioned with stands | lent
  · obtain ⟨symbol, among, referred⟩ := List.mem_map.1 stands
    obtain ⟨kind, named⟩ := Symbol.token_of_reference referred
    have occurs := (List.mem_filter.1 among).1
    have same := names.eq_of_occurrence (well_formed_of_build built) member occurs kind known named
    exact Or.inl (same ▸ occurs)
  · exact Or.inr lent

theorem unused_of_reported (built : left.build variant = .ok grammar) {token : String}
    (reported : token ∈ grammar.owedReport.unusedPrecedences) :
    token ∈ left.rankedTokens ∧ ¬ left.Mentions token := by
  obtain ⟨finding, listed, told⟩ := List.mem_filterMap.1 reported
  split at told
  · rename_i name precedence symbol
    obtain rfl : name = token := Option.some.inj told
    rw [Grammar.reported_iff .unusedPrecedences (by decide) rfl] at listed
    obtain ⟨⟨key, rank⟩, entry, inside⟩ := List.mem_flatMap.1 listed
    obtain ⟨terminal, among, equal⟩ := List.mem_map.1 inside
    obtain ⟨rfl, -, -⟩ := Diagnostic.unusedPrecedence.inj equal
    obtain ⟨known, unused⟩ := List.mem_filter.1 among
    obtain ⟨named, unused⟩ := of_decide_eq_true unused
    constructor
    · rw [ranked_iff built, Register.find_eq_some_iff.2 entry]
      rfl
    · intro mentioned
      exact unused (used_of_mentioned built known (named ▸ mentioned))
  · cases told

theorem Demotes.ranked {names : List String} (demotes : left.Demotes names right) :
    right.rankedTokens = left.rankedTokens.filter fun token => token ∉ names := by
  have same := congrArg (List.flatMap (·.tokens)) demotes.lines
  rw [tokens_of_lines_among, tokens_of_lines_among, List.filter_true] at same
  exact same

theorem Demotes.valid (valid : left.Valid variant) {names : List String}
    (demotes : left.Demotes names right) (ranked : ∀ token ∈ names, token ∈ left.rankedTokens)
    (unmentioned : ∀ token ∈ names, ¬ left.Mentions token) : right.Valid variant := by
  apply valid_of_more valid demotes.rules demotes.starts demotes.implicitTokens demotes.errorTexts
  · intro token declared
    rcases List.mem_append.1 declared with plain | listed
    · exact List.mem_append_left _ ((demotes.tokens token).2 (Or.inl plain))
    · by_cases demoted : token ∈ names
      · exact List.mem_append_left _ ((demotes.tokens token).2 (Or.inr demoted))
      · apply List.mem_append_right
        rw [demotes.ranked]
        exact List.mem_filter.2 ⟨listed, by simpa using demoted⟩
  · intro token declared
    left
    rcases List.mem_append.1 declared with plain | listed
    · rcases (demotes.tokens token).1 plain with old | demoted
      · exact List.mem_append_left _ old
      · exact List.mem_append_right _ (ranked token demoted)
    · rw [demotes.ranked] at listed
      exact List.mem_append_right _ (List.mem_filter.1 listed).1
  · rw [demotes.ranked]
    exact valid.ranks_distinct.filter _
  · intro token mentioned listed
    have kept : token ∉ names := fun demoted => unmentioned token demoted mentioned
    rw [demotes.ranked]
    exact List.mem_filter.2 ⟨listed, by simpa using kept⟩

end Demoted

section Inserted

variable {left : Declarations} {variant : Variant} {grammar : Grammar}
  {front back : List PrecedenceLine} {line : PrecedenceLine}

theorem ranked_with_line (shape : left.precedenceLines = front ++ back) :
    (left.withLines (front ++ line :: back)).rankedTokens.Perm
      (line.tokens ++ left.rankedTokens) := by
  unfold rankedTokens withLines
  rw [shape]
  simp only [List.flatMap_append, List.flatMap_cons, ← List.append_assoc]
  exact List.perm_append_comm.append_right _

theorem mem_ranked_with_line (shape : left.precedenceLines = front ++ back) {token : String} :
    token ∈ (left.withLines (front ++ line :: back)).rankedTokens ↔
      token ∈ line.tokens ∨ token ∈ left.rankedTokens :=
  (ranked_with_line shape).mem_iff.trans List.mem_append

theorem FreshLine.ranks_distinct (fresh : left.FreshLine line)
    (shape : left.precedenceLines = front ++ back) (apart : left.rankedTokens.Nodup) :
    (left.withLines (front ++ line :: back)).rankedTokens.Nodup := by
  apply (ranked_with_line shape).nodup_iff.2
  refine List.nodup_append.2 ⟨fresh.once, apart, ?_⟩
  intro token among other ranked same
  exact fresh.undeclared token among (List.mem_append_right _ (same ▸ ranked))

theorem FreshLine.valid (valid : left.Valid variant)
    (shape : left.precedenceLines = front ++ back) (fresh : left.FreshLine line) :
    (left.withLines (front ++ line :: back)).Valid variant := by
  refine valid_of_more valid rfl rfl rfl rfl ?_ ?_ ?_ ?_
  · intro token declared
    rcases List.mem_append.1 declared with plain | listed
    · exact List.mem_append_left _ plain
    · exact List.mem_append_right _ ((mem_ranked_with_line shape).2 (Or.inr listed))
  · intro token declared
    rcases List.mem_append.1 declared with plain | listed
    · exact Or.inl (List.mem_append_left _ plain)
    · rcases (mem_ranked_with_line shape).1 listed with new | old
      · exact Or.inr ⟨fresh.unreserved token new, fresh.no_rule token new⟩
      · exact Or.inl (List.mem_append_right _ old)
  · exact fresh.ranks_distinct shape valid.ranks_distinct
  · intro token _ listed
    exact (mem_ranked_with_line shape).2 (Or.inr listed)

end Inserted

/-- What a conflict is resolved to depends on the order of the used precedences and on nothing else
that is said of precedences. In particular all that are reported as unused may be taken back, and a
line of new tokens may be put anywhere. -/
theorem only_order_of_used_precedences_counts {left : Declarations} {variant : Variant}
    {grammar : Grammar} (built : left.build variant = .ok grammar) :
    (∀ (right : Declarations) (other : Grammar) (used : String → Prop),
      right.rules = left.rules → right.build variant = .ok other →
      (∀ token, left.Mentions token → used token) → grammar.RanksAlike other used →
      left.ResolvesAlike used grammar other) ∧
    (∃ report, (grammar.validate {}).outcome = .ok report ∧
      ∀ right : Declarations, left.Demotes report.unusedPrecedences right →
        ∃ other, right.build variant = .ok other ∧
          left.ResolvesAlike (· ∉ report.unusedPrecedences) grammar other) ∧
    ∀ (front back : List PrecedenceLine) (line : PrecedenceLine),
      left.precedenceLines = front ++ back → left.FreshLine line →
      ∃ other, (left.withLines (front ++ line :: back)).build variant = .ok other ∧
        left.ResolvesAlike (· ∉ line.tokens) grammar other := by
  have valid := valid_of_build built
  refine ⟨?_, ⟨_, validate_of_build built, ?_⟩, ?_⟩
  · intro right other used rules rightBuilt covered ranks
    exact alike_of_ranks built rightBuilt rules covered ranks
  · intro right demotes
    have ranked : ∀ token ∈ grammar.owedReport.unusedPrecedences, token ∈ left.rankedTokens :=
      fun token reported => (unused_of_reported built reported).1
    have unmentioned : ∀ token ∈ grammar.owedReport.unusedPrecedences, ¬ left.Mentions token :=
      fun token reported => (unused_of_reported built reported).2
    obtain ⟨other, rightBuilt⟩ :=
      built_of_valid built demotes.rules (demotes.valid valid ranked unmentioned)
    refine ⟨other, rightBuilt, alike_of_ranks built rightBuilt demotes.rules ?_ ?_⟩
    · intro token mentioned reported
      exact unmentioned token reported mentioned
    · apply ranks_alike_of_lines built rightBuilt demotes.lines
      intro token kept
      simpa using kept
  · intro front back line shape fresh
    have stillValid := fresh.valid valid shape
    have rules : (left.withLines (front ++ line :: back)).rules = left.rules := rfl
    obtain ⟨other, rightBuilt⟩ := built_of_valid built rules stillValid
    refine ⟨other, rightBuilt, alike_of_ranks built rightBuilt rules ?_ ?_⟩
    · intro token mentioned new
      exact fresh.undeclared token new (declared_of_mentioned valid mentioned)
    · have same : linesAmong (fun token => token ∉ line.tokens) (front ++ line :: back) =
          linesAmong (fun token => token ∉ line.tokens) left.precedenceLines := by
        rw [lines_among_append, lines_among_cons_of_none (by simp), shape, lines_among_append]
      apply ranks_alike_of_lines built rightBuilt same
      intro token kept
      simpa using kept

section Comparisons

/-- The comparison is on the weakest level. -/
def swappedComparisons : Declarations :=
  comparisonDeclarations.withLines [⟨.nonassociative, ["<"]⟩, ⟨.left, ["!"]⟩]

/-- The precedence that is of no use is taken back together with its line. -/
def plainComparisons : Declarations :=
  { comparisonDeclarations with
    tokens := ["n", "k", "!"]
    precedenceLines := [⟨.nonassociative, ["<"]⟩] }

/-- The lines change places, the unused one is taken back, or a new one is put between them. -/
theorem comparisons_resolved_alike :
    comparisonDeclarations.build .plain = .ok comparisons ∧
      (∃ other, swappedComparisons.build .plain = .ok other ∧
        comparisons.RanksAlike other (· ≠ "!") ∧
        comparisonDeclarations.ResolvesAlike (· ≠ "!") comparisons other) ∧
      (∃ other, plainComparisons.build .plain = .ok other ∧
        comparisonDeclarations.ResolvesAlike (· ∉ ["!"]) comparisons other) ∧
      ∃ other, (comparisonDeclarations.withLines
          [⟨.left, ["!"]⟩, ⟨.right, ["^"]⟩, ⟨.nonassociative, ["<"]⟩]).build .plain = .ok other ∧
        comparisonDeclarations.ResolvesAlike (· ∉ ["^"]) comparisons other := by
  obtain ⟨moved, ⟨report, validated, demoted⟩, inserted⟩ :=
    only_order_of_used_precedences_counts comparisons_built
  refine ⟨comparisons_built, ?_, ?_, ?_⟩
  · obtain ⟨other, swapped⟩ : ∃ other, swappedComparisons.build .plain = .ok other := ⟨_, rfl⟩
    have unmentioned : ¬ comparisonDeclarations.Mentions "!" := by
      unfold Mentions
      decide
    have ranks : comparisons.RanksAlike other (· ≠ "!") := by
      have lines : linesAmong (fun token => token ≠ "!") swappedComparisons.precedenceLines =
          linesAmong (fun token => token ≠ "!") comparisonDeclarations.precedenceLines := by
        decide
      apply ranks_alike_of_lines comparisons_built swapped lines
      intro token kept
      simpa using kept
    refine ⟨other, swapped, ranks, moved swappedComparisons other _ rfl swapped ?_ ranks⟩
    rintro token mentioned rfl
    exact unmentioned mentioned
  · have found : (comparisons.validate {}).outcome = .ok ⟨comparisonFindings⟩ := by
      decide +kernel
    obtain rfl : report = ⟨comparisonFindings⟩ := Except.ok.inj (validated.symm.trans found)
    have unused : (⟨comparisonFindings⟩ : Report).unusedPrecedences = ["!"] := rfl
    rw [unused] at demoted
    exact demoted plainComparisons ⟨rfl, rfl, rfl, rfl,
      by simp [plainComparisons, comparisonDeclarations, or_assoc], by decide⟩
  · exact inserted [⟨.left, ["!"]⟩] [⟨.nonassociative, ["<"]⟩] ⟨.right, ["^"]⟩ rfl
      ⟨by decide, by decide, by decide, by decide⟩

end Comparisons

end Declarations

end GrammarKit
