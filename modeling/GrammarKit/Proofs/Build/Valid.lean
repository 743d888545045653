import GrammarKit.Proofs.Build.Represented
import GrammarKit.Proofs.Registers
import Mathlib.Tactic.MkIffOfInductiveProp

/-!
# Valid declarations

What an author has to keep to is said here without the checks: names that are told apart, one start
rule, and every name in use declared. Each check is then shown to accept exactly what it is there
for and to reject everything else, and a row of checks accepts what each of them accepts. Stray
texts are not declared by any name; an alternative that holds one is never accepted, but the failure
is not a rejection of the declarations.
-/

namespace GrammarKit

set_option autoImplicit false

section Accepting

variable {α β : Type}

/-- There is an answer under a condition, and otherwise a rejection of the declarations. -/
structure AcceptsIff (outcome : Except Fault α) (condition : Prop) : Prop where
  accepted : condition → ∃ answer, outcome = .ok answer
  rejected : ¬condition → ∃ error, outcome = .error (.rejected error)

namespace AcceptsIff

variable {outcome : Except Fault α} {condition : Prop}

theorem answered_iff (accepts : AcceptsIff outcome condition) :
    (∃ answer, outcome = .ok answer) ↔ condition := by
  constructor
  · intro answered
    by_contra violated
    obtain ⟨answer, answered⟩ := answered
    obtain ⟨error, failed⟩ := accepts.rejected violated
    rw [answered] at failed
    cases failed
  · exact accepts.accepted

theorem congr {other : Prop} (accepts : AcceptsIff outcome condition)
    (same : condition ↔ other) : AcceptsIff outcome other where
  accepted holds := accepts.accepted (same.2 holds)
  rejected violated := accepts.rejected (fun holds => violated (same.1 holds))

theorem of_answer (answer : α) : AcceptsIff (.ok answer : Except Fault α) True where
  accepted _ := ⟨answer, rfl⟩
  rejected never := absurd trivial never

theorem of_rejection (error : DeclarationError) :
    AcceptsIff (.error (.rejected error) : Except Fault α) False where
  accepted := False.elim
  rejected _ := ⟨error, rfl⟩

theorem of_require {found : Option α} {error : DeclarationError} :
    AcceptsIff (require found (.rejected error)) found.isSome := by
  cases found with
  | none => exact (of_rejection error).congr (by simp)
  | some value => exact (of_answer value).congr (by simp)

theorem of_test {allowed : Prop} [Decidable allowed] {error : DeclarationError}
    (accepts : AcceptsIff outcome condition) :
    AcceptsIff (if allowed then outcome else .error (.rejected error)) (allowed ∧ condition) := by
  by_cases holds : allowed
  · rw [if_pos holds]
    exact accepts.congr (by simp [holds])
  · rw [if_neg holds]
    exact (of_rejection error).congr (by simp [holds])

theorem of_guard {forbidden : Prop} [Decidable forbidden] {error : DeclarationError}
    (accepts : AcceptsIff outcome condition) :
    AcceptsIff (if forbidden then .error (.rejected error) else outcome)
      (¬forbidden ∧ condition) := by
  by_cases holds : forbidden
  · rw [if_pos holds]
    exact (of_rejection error).congr (by simp [holds])
  · rw [if_neg holds]
    exact accepts.congr (by simp [holds])

theorem of_distinct {names : List String} (error : String → DeclarationError) (answer : α) :
    AcceptsIff (match repeated? [] names with
      | some name => .error (.rejected (error name))
      | none => .ok answer) names.Nodup := by
  have unrepeated : repeated? [] names = none ↔ _ := repeated_none_iff
  cases repeated : repeated? [] names with
  | none => exact (of_answer answer).congr (by simp [unrepeated.1 repeated])
  | some name =>
      rw [repeated] at unrepeated
      exact (of_rejection (error name)).congr (by simpa using unrepeated)

/-- A later check may rely on what the earlier one let pass. -/
theorem bind {next : α → Except Fault β} {later : Prop} (accepts : AcceptsIff outcome condition)
    (continued : ∀ answer, condition → outcome = .ok answer → AcceptsIff (next answer) later) :
    AcceptsIff (outcome >>= next) (condition ∧ later) := by
  by_cases holds : condition
  · obtain ⟨answer, answered⟩ := accepts.accepted holds
    have rest := continued answer holds answered
    rw [answered]
    constructor
    · intro both
      exact rest.accepted both.2
    · intro violated
      exact rest.rejected (fun held => violated ⟨holds, held⟩)
  · obtain ⟨error, failed⟩ := accepts.rejected holds
    rw [failed]
    constructor
    · intro both
      exact absurd both.1 holds
    · intro _
      exact ⟨error, rfl⟩

theorem map_m {ask : α → Except Fault β} {condition : α → Prop} {items : List α}
    (each : ∀ item ∈ items, AcceptsIff (ask item) (condition item)) :
    AcceptsIff (items.mapM ask) (∀ item ∈ items, condition item) := by
  induction items with
  | nil => exact (of_answer []).congr (by simp)
  | cons item rest ih =>
      have later := ih (fun other member => each other (by simp [member]))
      rw [List.mapM_cons]
      refine ((each item (by simp)).bind fun first _ _ =>
        later.bind fun others _ _ => of_answer (first :: others)).congr ?_
      simp

theorem for_m {check : α → Except Fault Unit} {condition : α → Prop} {items : List α}
    (each : ∀ item ∈ items, AcceptsIff (check item) (condition item)) :
    AcceptsIff (items.forM check) (∀ item ∈ items, condition item) := by
  induction items with
  | nil => exact (of_answer ()).congr (by simp)
  | cons item rest ih =>
      have later := ih (fun other member => each other (by simp [member]))
      change AcceptsIff (check item >>= fun _ => rest.forM check) _
      exact ((each item (by simp)).bind fun _ _ _ => later).congr (by simp)

end AcceptsIff

end Accepting

def Reference.isName : Reference → Bool
  | .rule _ => true
  | .token _ => true
  | .stray _ => false

namespace Declarations

def alternatives (declarations : Declarations) : List Alternative :=
  declarations.rules.flatMap (·.alternatives)

/-- The tokens of the precedence lines. -/
def rankedTokens (declarations : Declarations) : List String :=
  declarations.precedenceLines.flatMap (·.tokens)

/-- Everything that is declared to be a token, on a precedence line or elsewhere. -/
def declaredTokens (declarations : Declarations) : List String :=
  declarations.tokens ++ declarations.rankedTokens

/-- The reference means a rule or a token that there is. -/
def Defines (declarations : Declarations) : Reference → Prop
  | .rule name => name ∈ declarations.ruleNames
  | .token name => name ∈ declarations.declaredTokens
  | .stray _ => False

instance (declarations : Declarations) : DecidablePred declarations.Defines
  | .rule name => inferInstanceAs (Decidable (name ∈ declarations.ruleNames))
  | .token name => inferInstanceAs (Decidable (name ∈ declarations.declaredTokens))
  | .stray _ => inferInstanceAs (Decidable False)

@[mk_iff]
structure Valid (declarations : Declarations) (variant : Variant) : Prop where
  rules_given : declarations.rules ≠ []
  rules_distinct : declarations.ruleNames.Nodup
  starts_agree : ∀ left ∈ declarations.starts, ∀ right ∈ declarations.starts, left = right
  starts_known : ∀ name ∈ declarations.starts, name ∈ declarations.ruleNames
  tokens_unreserved : ∀ name ∈ declarations.declaredTokens, name ≠ endOfInput
  tokens_no_rules : ∀ name ∈ declarations.declaredTokens, name ∉ declarations.ruleNames
  ranks_distinct : declarations.rankedTokens.Nodup
  references_defined : ∀ alternative ∈ declarations.alternatives,
    ∀ reference ∈ alternative.references, declarations.Defines reference
  precedences_known : ∀ alternative ∈ declarations.alternatives,
    ∀ token ∈ alternative.precedence, token ∈ declarations.rankedTokens
  error_texts_known : ∀ name ∈ declarations.errorTexts.keys, name ∈ declarations.declaredTokens
  /-- Implicit tokens that are declared to be none at all are refused as well. -/
  implicit_tokens_known : ∀ names ∈ declarations.implicitTokens,
    variant = .eco ∧ ∀ name ∈ names, name ∈ declarations.declaredTokens

instance (declarations : Declarations) (variant : Variant) :
    Decidable (declarations.Valid variant) :=
  decidable_of_iff _ (valid_iff declarations variant).symm

/-- All references are names of rules or of tokens, declared or not. -/
def NamesOnly (declarations : Declarations) : Prop :=
  ∀ alternative ∈ declarations.alternatives, ∀ reference ∈ alternative.references,
    reference.isName

instance (declarations : Declarations) : Decidable declarations.NamesOnly :=
  inferInstanceAs (Decidable (∀ alternative ∈ declarations.alternatives,
    ∀ reference ∈ alternative.references, reference.isName))

variable {declarations : Declarations} {variant : Variant}

section Names

theorem mem_token_names {name : String} :
    name ∈ declarations.tokenNames ↔ name ∈ declarations.declaredTokens :=
  (distinct_lists_once declarations.declaredTokens).same name

theorem ranked_names_of_pairs :
    declarations.precedencePairs.map (·.1) = declarations.rankedTokens := by
  unfold precedencePairs rankedTokens
  generalize 1 = level
  induction declarations.precedenceLines generalizing level with
  | nil => rfl
  | cons line rest ih =>
      rw [List.zipIdx_cons, List.flatMap_cons, List.flatMap_cons, List.map_append, ih]
      simp [Function.comp_def]

/-- The tokens of a line have its associativity, and the number of the line for their level. -/
theorem mem_precedence_pairs {pair : String × Precedence} :
    pair ∈ declarations.precedencePairs ↔
      ∃ (place : Nat) (line : PrecedenceLine), declarations.precedenceLines[place]? = some line ∧
        pair.1 ∈ line.tokens ∧ pair.2 = ⟨place + 1, line.associativity⟩ := by
  unfold precedencePairs
  rw [List.mem_flatMap]
  constructor
  · intro listed
    obtain ⟨⟨line, level⟩, indexed, inside⟩ := listed
    obtain ⟨positive, found⟩ := List.mk_mem_zipIdx_iff_le_and_getElem?_sub.1 indexed
    obtain ⟨token, among, rfl⟩ := List.mem_map.1 inside
    refine ⟨level - 1, line, found, among, ?_⟩
    rw [Precedence.mk.injEq]
    exact ⟨by omega, rfl⟩
  · intro placed
    obtain ⟨place, line, found, among, rank⟩ := placed
    refine ⟨(line, place + 1), List.mk_mem_zipIdx_iff_le_and_getElem?_sub.2 ⟨by omega, ?_⟩, ?_⟩
    · simpa using found
    · exact List.mem_map.2 ⟨pair.1, among, Prod.ext rfl (by simp [rank])⟩

theorem numbered_symbol_found (kind : SymbolKind) (names : List String) {name : String} :
    ((numberedSymbols kind names).find? fun symbol => symbol.name = name).isSome ↔
      name ∈ names := by
  rw [List.find?_isSome]
  conv_rhs => rw [← names_of_numbered kind names]
  simp [List.mem_map]

end Names

section Checks

theorem check_rules_accepts : AcceptsIff declarations.checkRules
    (declarations.rules ≠ [] ∧ declarations.ruleNames.Nodup) := by
  have distinct : AcceptsIff _ declarations.ruleNames.Nodup :=
    AcceptsIff.of_distinct .duplicateRule ()
  exact distinct.of_guard.congr (by simp)

theorem start_symbol_accepts (given : declarations.rules ≠ []) :
    AcceptsIff declarations.startSymbol
      ((∀ left ∈ declarations.starts, ∀ right ∈ declarations.starts, left = right) ∧
        ∀ name ∈ declarations.starts, name ∈ declarations.ruleNames) := by
  have same := (distinct_lists_once declarations.starts).same
  have apart := (distinct_lists_once declarations.starts).nodup
  unfold startSymbol
  split
  · rename_i none_declared
    rw [none_declared] at same
    have nothing : declarations.starts = [] := by
      apply List.eq_nil_iff_forall_not_mem.2
      intro name member
      exact absurd ((same name).2 member) List.not_mem_nil
    apply AcceptsIff.of_require.congr
    rw [nothing]
    simp [ruleSymbols, numberedSymbols, ruleNames, given]
  · rename_i name one_declared
    rw [one_declared] at same
    simp only [List.mem_singleton] at same
    apply (AcceptsIff.of_require.congr (numbered_symbol_found .nonterminal _)).congr
    simp [← same]
  · rename_i first second others several_declared
    rw [several_declared] at same apart
    constructor
    · intro both
      have equal := both.1 first ((same first).1 (by simp)) second ((same second).1 (by simp))
      simp [equal] at apart
    · intro _
      exact ⟨.conflictingStarts first second others, rfl⟩

theorem check_token_accepts {name : String} : AcceptsIff (declarations.checkToken name)
    (name ≠ endOfInput ∧ name ∉ declarations.ruleNames) := by
  have checked : AcceptsIff (declarations.checkToken name)
      (name ≠ endOfInput ∧ name ∉ declarations.ruleNames ∧ True) :=
    ((AcceptsIff.of_answer ()).of_guard).of_guard
  simpa using checked

theorem precedences_accepts :
    AcceptsIff declarations.precedences declarations.rankedTokens.Nodup := by
  rw [← ranked_names_of_pairs]
  exact AcceptsIff.of_distinct _ _

theorem precedence_names {precedences : Register String Precedence}
    (accepted : declarations.precedences = .ok precedences) {token : String} :
    precedences.contains token ↔ token ∈ declarations.rankedTokens := by
  unfold Declarations.precedences at accepted
  split at accepted
  · cases accepted
  · cases accepted
    rw [Register.contains_iff, Register.mem_keys_of_pairs, ranked_names_of_pairs]

theorem precedence_entries {precedences : Register String Precedence}
    (accepted : declarations.precedences = .ok precedences) :
    precedences.entries = declarations.precedencePairs := by
  have apart := precedences_accepts.answered_iff.1 ⟨_, accepted⟩
  rw [← ranked_names_of_pairs] at apart
  unfold Declarations.precedences at accepted
  rw [repeated_none_iff.2 ⟨apart, by simp⟩] at accepted
  have filled : Register.ofPairs declarations.precedencePairs = precedences :=
    Except.ok.inj accepted
  rw [← filled]
  exact Register.entries_of_pairs apart

theorem ranked_in_order {grammar : Grammar} (built : declarations.build variant = .ok grammar) :
    grammar.precedences.entries = declarations.precedencePairs := by
  obtain ⟨parts, accepted, rfl⟩ := build_eq_ok_iff.1 built
  exact precedence_entries accepted.precedences

variable {precedences : Register String Precedence}

theorem token_found {name : String} :
    ((declarations.scope variant precedences).token? name).isSome ↔
      name ∈ declarations.declaredTokens := by
  rw [← mem_token_names]
  exact numbered_symbol_found .terminal _

theorem resolve_accepts (user : String) {reference : Reference}
    (named : reference.isName) :
    AcceptsIff ((declarations.scope variant precedences).resolve user reference)
      (declarations.Defines reference) := by
  cases reference with
  | rule name =>
      have found : ((declarations.scope variant precedences).rule? name).isSome ↔
        name ∈ declarations.ruleNames := numbered_symbol_found .nonterminal _
      refine ((AcceptsIff.of_require.congr found).bind fun symbol _ _ =>
        AcceptsIff.of_answer _).congr ?_
      simp [Defines]
  | token name =>
      refine ((AcceptsIff.of_require.congr token_found).bind fun symbol _ _ =>
        AcceptsIff.of_answer _).congr ?_
      simp [Defines]
  | stray text => cases named

theorem check_precedence_accepts (accepted : declarations.precedences = .ok precedences)
    {precedence : Option String} :
    AcceptsIff ((declarations.scope variant precedences).checkPrecedence precedence)
      (∀ token ∈ precedence, token ∈ declarations.rankedTokens) := by
  cases precedence with
  | none => exact (AcceptsIff.of_answer ()).congr (by simp)
  | some token =>
      have checked : AcceptsIff
          ((declarations.scope variant precedences).checkPrecedence (some token))
          (precedences.contains token ∧ True) := (AcceptsIff.of_answer ()).of_test
      exact checked.congr (by simp [precedence_names accepted])

theorem clause_accepts (accepted : declarations.precedences = .ok precedences) {lhs : Symbol}
    {alternative : Alternative}
    (named : ∀ reference ∈ alternative.references, reference.isName) :
    AcceptsIff ((declarations.scope variant precedences).clause lhs alternative)
      ((∀ reference ∈ alternative.references, declarations.Defines reference) ∧
        ∀ token ∈ alternative.precedence, token ∈ declarations.rankedTokens) := by
  have resolved : AcceptsIff (alternative.references.mapM
      ((declarations.scope variant precedences).resolve lhs.name)) _ :=
    AcceptsIff.map_m fun reference member => resolve_accepts lhs.name (named reference member)
  refine (resolved.bind fun symbols _ _ => (check_precedence_accepts accepted).bind fun _ _ _ =>
    AcceptsIff.of_answer _).congr ?_
  simp

theorem zipped_rules :
    (declarations.rules.zip declarations.ruleSymbols).map (·.1) = declarations.rules := by
  rw [List.map_fst_zip]
  exact Nat.le_of_eq (length_rule_symbols declarations).symm

theorem alternatives_paired :
    ((declarations.rules.zip declarations.ruleSymbols).flatMap fun (rule, lhs) =>
      rule.alternatives.map fun alternative => (lhs, alternative)).map (·.2) =
        declarations.alternatives := by
  unfold alternatives
  conv_rhs => rw [← zipped_rules]
  simp [List.map_flatMap, List.flatMap_map, Function.comp_def]

theorem alternatives_of_clauses {condition : Alternative → Prop} :
    (∀ pair ∈ (declarations.rules.zip declarations.ruleSymbols).flatMap (fun (rule, lhs) =>
        rule.alternatives.map fun alternative => (lhs, alternative)), condition pair.2) ↔
      ∀ alternative ∈ declarations.alternatives, condition alternative := by
  rw [← alternatives_paired]
  simp only [List.forall_mem_map]

theorem clauses_accepts (accepted : declarations.precedences = .ok precedences)
    (named : declarations.NamesOnly) :
    AcceptsIff (declarations.clauses (declarations.scope variant precedences))
      (∀ alternative ∈ declarations.alternatives,
        (∀ reference ∈ alternative.references, declarations.Defines reference) ∧
          ∀ token ∈ alternative.precedence, token ∈ declarations.rankedTokens) := by
  apply AcceptsIff.congr _ alternatives_of_clauses
  have each := alternatives_of_clauses.2 named
  exact AcceptsIff.map_m fun pair member => clause_accepts accepted (each pair member)

theorem error_texts_accepts :
    AcceptsIff (declarations.numberedErrorTexts (declarations.scope variant precedences))
      (∀ name ∈ declarations.errorTexts.keys, name ∈ declarations.declaredTokens) := by
  refine ((AcceptsIff.map_m fun entry _ =>
    (AcceptsIff.of_require.congr token_found).bind fun token _ _ =>
      AcceptsIff.of_answer (token.index, entry.2)).bind fun pairs _ _ =>
        AcceptsIff.of_answer (Register.ofPairs pairs)).congr ?_
  simp [Register.keys]

theorem implicit_tokens_accepts :
    AcceptsIff (declarations.implicitTokenSymbols variant
        (declarations.scope variant precedences))
      (∀ names ∈ declarations.implicitTokens,
        variant = .eco ∧ ∀ name ∈ names, name ∈ declarations.declaredTokens) := by
  unfold implicitTokenSymbols
  split
  · rename_i undeclared
    exact (AcceptsIff.of_answer []).congr (by simp [undeclared])
  · rename_i names declared
    exact (AcceptsIff.of_rejection .implicitTokensRefused).congr (by simp [declared])
  · rename_i names declared
    refine ((AcceptsIff.map_m fun name _ =>
      AcceptsIff.of_require.congr token_found).bind fun symbols _ _ =>
        AcceptsIff.of_answer symbols.eraseDups).congr ?_
    simp [declared]

end Checks

theorem build_accepts (named : declarations.NamesOnly) :
    AcceptsIff (declarations.build variant) (declarations.Valid variant) := by
  have tokens : AcceptsIff (declarations.tokenNames.forM declarations.checkToken) _ :=
    AcceptsIff.for_m fun name _ => check_token_accepts
  have chain : AcceptsIff (declarations.build variant) _ :=
    check_rules_accepts.bind fun _ rules _ =>
    (start_symbol_accepts rules.1).bind fun start _ _ =>
    tokens.bind fun _ _ _ =>
    precedences_accepts.bind fun precedences _ ranked =>
    (clauses_accepts ranked named).bind fun clauses _ _ =>
    error_texts_accepts.bind fun errorTexts _ _ =>
    implicit_tokens_accepts.bind fun implicitTokens _ _ =>
    AcceptsIff.of_answer (declarations.grammarOf variant
      ⟨start, precedences, clauses, errorTexts, implicitTokens⟩)
  apply chain.congr
  rw [valid_iff]
  simp only [mem_token_names, forall₂_and]
  tauto

theorem names_only_of_build {grammar : Grammar} (built : declarations.build variant = .ok grammar) :
    declarations.NamesOnly := by
  obtain ⟨parts, accepted, rfl⟩ := build_eq_ok_iff.1 built
  intro alternative listed reference among
  rw [← alternatives_paired] at listed
  obtain ⟨headed, paired, rfl⟩ := List.mem_map.1 listed
  obtain ⟨clause, _, made⟩ := except_map_m_answered accepted.clauses headed paired
  obtain ⟨symbols, resolved, _⟩ := except_bind_eq_ok_iff.1 made
  obtain ⟨_, _, found⟩ := except_map_m_answered resolved reference among
  cases reference with
  | rule name => rfl
  | token name => rfl
  | stray text => cases found

theorem valid_of_build {grammar : Grammar} (built : declarations.build variant = .ok grammar) :
    declarations.Valid variant :=
  (build_accepts (names_only_of_build built)).answered_iff.1 ⟨_, built⟩

end Declarations

end GrammarKit
