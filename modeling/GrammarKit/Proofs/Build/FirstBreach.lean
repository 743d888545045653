import GrammarKit.Proofs.Build.Valid

/-!
# The first breach

The rules for declarations are numbered, and a rejection blames the breach of the lowest number, with
one exception. References and precedences of the alternatives are checked in one go, alternative by
alternative, so the first alternative at fault decides between the two: when all its references are
declared, its precedence is blamed, whatever later alternatives refer to.
-/

namespace GrammarKit

set_option autoImplicit false

namespace DeclarationErrorKind

/-- The numbers of the checks. Two of them can end in either of two kinds. -/
def number : DeclarationErrorKind → Nat
  | noStartRule => 1
  | duplicateRule => 2
  | conflictingStart => 3
  | invalidStartRule => 3
  | clashingName => 4
  | duplicatePrecedence => 5
  | unknownRuleReference => 6
  | unknownToken => 6
  | noPrecedenceForToken => 7
  | unknownErrorText => 8
  | invalidImplicitTokens => 9

theorem number_bounds (kind : DeclarationErrorKind) : 1 ≤ kind.number ∧ kind.number < 10 := by
  cases kind <;> decide

theorem eq_of_same_number {left right : DeclarationErrorKind} (same : left.number = right.number)
    (single : left.number ≠ 3 ∧ left.number ≠ 6) : right = left := by
  revert same single
  cases left <;> cases right <;> decide

end DeclarationErrorKind

namespace Declarations

/-- The declarations violate the rule behind a kind of error. -/
def Breaks (declarations : Declarations) (variant : Variant) : DeclarationErrorKind → Prop
  | .noStartRule => declarations.rules = []
  | .duplicateRule => ¬declarations.ruleNames.Nodup
  | .conflictingStart => ∃ left ∈ declarations.starts, ∃ right ∈ declarations.starts, left ≠ right
  | .invalidStartRule => ∃ name ∈ declarations.starts, name ∉ declarations.ruleNames
  | .clashingName => ∃ name ∈ declarations.declaredTokens,
      name = endOfInput ∨ name ∈ declarations.ruleNames
  | .duplicatePrecedence => ¬declarations.rankedTokens.Nodup
  | .unknownRuleReference => ∃ alternative ∈ declarations.alternatives,
      ∃ name, .rule name ∈ alternative.references ∧ name ∉ declarations.ruleNames
  | .unknownToken => ∃ alternative ∈ declarations.alternatives,
      ∃ name, .token name ∈ alternative.references ∧ name ∉ declarations.declaredTokens
  | .noPrecedenceForToken => ∃ alternative ∈ declarations.alternatives,
      ∃ token ∈ alternative.precedence, token ∉ declarations.rankedTokens
  | .unknownErrorText => ∃ name ∈ declarations.errorTexts.keys,
      name ∉ declarations.declaredTokens
  | .invalidImplicitTokens => ∃ names ∈ declarations.implicitTokens,
      variant = .plain ∨ ∃ name ∈ names, name ∉ declarations.declaredTokens

def Resolves (declarations : Declarations) (alternative : Alternative) : Prop :=
  ∀ reference ∈ alternative.references, declarations.Defines reference

instance (declarations : Declarations) : DecidablePred declarations.Resolves := fun alternative =>
  inferInstanceAs (Decidable (∀ reference ∈ alternative.references, declarations.Defines reference))

/-- The token that lends the alternative its precedence has one. -/
def Ranks (declarations : Declarations) (alternative : Alternative) : Prop :=
  ∀ token ∈ alternative.precedence, token ∈ declarations.rankedTokens

instance (declarations : Declarations) : DecidablePred declarations.Ranks := fun alternative =>
  inferInstanceAs (Decidable (∀ token ∈ alternative.precedence, token ∈ declarations.rankedTokens))

def firstFaulty? (declarations : Declarations) : Option Alternative :=
  declarations.alternatives.find? fun alternative =>
    ¬(declarations.Resolves alternative ∧ declarations.Ranks alternative)

theorem faulty_of_first {declarations : Declarations} {alternative : Alternative}
    (first : declarations.firstFaulty? = some alternative) :
    alternative ∈ declarations.alternatives ∧
      ¬(declarations.Resolves alternative ∧ declarations.Ranks alternative) := by
  unfold firstFaulty? at first
  have faulty := List.find?_some first
  exact ⟨List.mem_of_find?_eq_some first, of_decide_eq_true faulty⟩

/-- Only the precedence of the first alternative at fault is to blame. -/
def PrecedenceFaultFirst (declarations : Declarations) : Prop :=
  ∃ alternative ∈ declarations.firstFaulty?, declarations.Resolves alternative

instance (declarations : Declarations) : Decidable declarations.PrecedenceFaultFirst :=
  inferInstanceAs (Decidable (∃ alternative ∈ declarations.firstFaulty?,
    declarations.Resolves alternative))

/-- When the rule behind a kind of error has its turn: in order of the numbers, but the first
alternative at fault can make the checks of references and precedences change places. -/
def turn (declarations : Declarations) (kind : DeclarationErrorKind) : Nat :=
  if declarations.PrecedenceFaultFirst ∧ (kind.number = 6 ∨ kind.number = 7) then 13 - kind.number
  else kind.number

variable {declarations : Declarations} {variant : Variant}

theorem turn_eq_number {kind : DeclarationErrorKind}
    (straight : ¬declarations.PrecedenceFaultFirst) : declarations.turn kind = kind.number :=
  if_neg fun swapped => straight swapped.1

theorem number_of_turn {kind : DeclarationErrorKind} {place : Nat}
    (has_turn : declarations.turn kind = place) (apart : place ≠ 6 ∧ place ≠ 7) :
    kind.number = place := by
  unfold turn at has_turn
  split at has_turn <;> omega

theorem turn_of_number {kind : DeclarationErrorKind}
    (apart : kind.number ≠ 6 ∧ kind.number ≠ 7) : declarations.turn kind = kind.number :=
  if_neg fun swapped => by omega

/-- Only the checks of references and precedences can change places. -/
theorem le_turn_iff {kind : DeclarationErrorKind} {place : Nat} (outside : place ≤ 6 ∨ 8 ≤ place) :
    place ≤ declarations.turn kind ↔ place ≤ kind.number := by
  unfold turn
  split <;> omega

section Blame

variable {α β : Type}

/-- An answer tells that no rule is broken that has its turn from `first` on and before `last`. A
rejection blames a broken rule, and no broken rule from `first` on comes before it. -/
def BlamesFirst (declarations : Declarations) (variant : Variant) (first last : Nat)
    (outcome : Except Fault α) : Prop :=
  (∃ answer, outcome = .ok answer ∧ ∀ kind, declarations.Breaks variant kind →
    first ≤ declarations.turn kind → last ≤ declarations.turn kind) ∨
  ∃ error, outcome = .error (.rejected error) ∧ declarations.Breaks variant error.kind ∧
    ∀ kind, declarations.Breaks variant kind → first ≤ declarations.turn kind →
      declarations.turn error.kind ≤ declarations.turn kind

theorem BlamesFirst.bind {first middle last : Nat} {outcome : Except Fault α}
    {next : α → Except Fault β} (now : declarations.BlamesFirst variant first middle outcome)
    (later : ∀ answer, outcome = .ok answer →
      declarations.BlamesFirst variant middle last (next answer)) :
    declarations.BlamesFirst variant first last (outcome >>= next) := by
  rcases now with ⟨answer, answered, unbroken⟩ | ⟨error, failed, broken, least⟩
  · rcases later answer answered with ⟨final, finished, rest⟩ | ⟨error, failed, broken, least⟩
    · refine Or.inl ⟨final, except_bind_eq_ok_iff.2 ⟨answer, answered, finished⟩, ?_⟩
      exact fun kind breach from_first => rest kind breach (unbroken kind breach from_first)
    · refine Or.inr ⟨error, ?_, broken, ?_⟩
      · rw [answered]
        exact failed
      · exact fun kind breach from_first => least kind breach (unbroken kind breach from_first)
  · refine Or.inr ⟨error, ?_, broken, least⟩
    rw [failed]
    rfl

/-- All rejections are of one kind. -/
def RejectsOnly (outcome : Except Fault α) (kind : DeclarationErrorKind) : Prop :=
  ∀ error, outcome = .error (.rejected error) → error.kind = kind

namespace RejectsOnly

variable {kind : DeclarationErrorKind} {outcome : Except Fault α}

theorem of_answer (answer : α) : RejectsOnly (.ok answer) kind := by
  intro error failed
  cases failed

theorem of_rejection (error : DeclarationError) :
    RejectsOnly (.error (.rejected error) : Except Fault α) error.kind := by
  intro other failed
  cases failed
  rfl

theorem of_require (found : Option α) (error : DeclarationError) :
    RejectsOnly (require found (.rejected error)) error.kind := by
  cases found with
  | none => exact of_rejection error
  | some value => exact of_answer value

theorem bind {next : α → Except Fault β} (now : RejectsOnly outcome kind)
    (later : ∀ answer, RejectsOnly (next answer) kind) : RejectsOnly (outcome >>= next) kind := by
  cases outcome with
  | ok answer => exact later answer
  | error fault =>
      intro error failed
      cases failed
      exact now error rfl

theorem of_distinct {names : List String} (error : String → DeclarationError)
    (kinds : ∀ name, (error name).kind = kind) (answer : α) :
    RejectsOnly (match repeated? [] names with
      | some name => .error (.rejected (error name))
      | none => .ok answer) kind := by
  cases repeated? [] names with
  | some name => exact kinds name ▸ of_rejection (error name)
  | none => exact of_answer answer

theorem map_m {ask : α → Except Fault β} {items : List α}
    (each : ∀ item ∈ items, RejectsOnly (ask item) kind) : RejectsOnly (items.mapM ask) kind := by
  induction items with
  | nil => exact of_answer []
  | cons item rest ih =>
      rw [List.mapM_cons]
      exact (each item (by simp)).bind fun first =>
        (ih fun other member => each other (by simp [member])).bind fun others =>
          of_answer (first :: others)

theorem for_m {check : α → Except Fault Unit} {items : List α}
    (each : ∀ item ∈ items, RejectsOnly (check item) kind) :
    RejectsOnly (items.forM check) kind := by
  induction items with
  | nil => exact of_answer ()
  | cons item rest ih =>
      change RejectsOnly (check item >>= fun _ => rest.forM check) kind
      exact (each item (by simp)).bind fun _ =>
        ih fun other member => each other (by simp [member])

end RejectsOnly

theorem BlamesFirst.of_number {outcome : Except Fault α} {condition : Prop} {place : Nat}
    (accepts : AcceptsIff outcome condition) (apart : place ≠ 6 ∧ place ≠ 7)
    (blamed : ∀ error, outcome = .error (.rejected error) →
      error.kind.number = place ∧ declarations.Breaks variant error.kind)
    (unbroken : condition → ∀ kind, kind.number = place → ¬declarations.Breaks variant kind) :
    declarations.BlamesFirst variant place (place + 1) outcome := by
  by_cases holds : condition
  · obtain ⟨answer, answered⟩ := accepts.accepted holds
    refine Or.inl ⟨answer, answered, ?_⟩
    intro kind breach from_here
    have later : declarations.turn kind ≠ place := fun has_turn =>
      unbroken holds kind (number_of_turn has_turn apart) breach
    omega
  · obtain ⟨error, failed⟩ := accepts.rejected holds
    obtain ⟨numbered, broken⟩ := blamed error failed
    refine Or.inr ⟨error, failed, broken, ?_⟩
    intro kind _ from_here
    rwa [turn_of_number (numbered ▸ apart), numbered]

theorem BlamesFirst.of_accepts {outcome : Except Fault α} {condition : Prop}
    (kind : DeclarationErrorKind) (accepts : AcceptsIff outcome condition)
    (rejects : RejectsOnly outcome kind) (broken_iff : declarations.Breaks variant kind ↔ ¬condition)
    (single : kind.number ≠ 3 ∧ kind.number ≠ 6 ∧ kind.number ≠ 7) :
    declarations.BlamesFirst variant kind.number (kind.number + 1) outcome := by
  apply BlamesFirst.of_number accepts single.2
  · intro error failed
    have violated : ¬condition := by
      intro holds
      obtain ⟨answer, answered⟩ := accepts.accepted holds
      rw [failed] at answered
      cases answered
    rw [rejects error failed]
    exact ⟨rfl, broken_iff.2 violated⟩
  · intro holds other same breach
    have equal := DeclarationErrorKind.eq_of_same_number same.symm ⟨single.1, single.2.1⟩
    exact broken_iff.1 (equal ▸ breach) holds

theorem BlamesFirst.of_guard {forbidden : Prop} [Decidable forbidden] {outcome : Except Fault α}
    {last : Nat} (error : DeclarationError)
    (broken_iff : declarations.Breaks variant error.kind ↔ forbidden)
    (single : error.kind.number ≠ 3 ∧ error.kind.number ≠ 6 ∧ error.kind.number ≠ 7)
    (later : declarations.BlamesFirst variant (error.kind.number + 1) last outcome) :
    declarations.BlamesFirst variant error.kind.number last
      (if forbidden then .error (.rejected error) else outcome) := by
  have guarded : AcceptsIff (if forbidden then .error (.rejected error) else .ok ())
      (¬forbidden ∧ True) := (AcceptsIff.of_answer ()).of_guard
  have rejects : RejectsOnly (if forbidden then .error (.rejected error) else .ok ())
      error.kind := by
    split
    · exact RejectsOnly.of_rejection error
    · exact RejectsOnly.of_answer ()
  have both := (BlamesFirst.of_accepts error.kind guarded rejects (by simp [broken_iff]) single).bind
    fun _ _ => later
  by_cases holds : forbidden
  · rw [if_pos holds] at both ⊢
    exact both
  · rw [if_neg holds] at both ⊢
    exact both

end Blame

section Checks

theorem check_rules_blames : declarations.BlamesFirst variant 1 3 declarations.checkRules := by
  have distinct : declarations.BlamesFirst variant 2 3 _ :=
    BlamesFirst.of_accepts .duplicateRule (AcceptsIff.of_distinct .duplicateRule ())
      (RejectsOnly.of_distinct .duplicateRule (fun _ => rfl) ()) Iff.rfl (by decide)
  exact BlamesFirst.of_guard .noRules List.isEmpty_iff.symm (by decide) distinct

theorem start_symbol_blames (given : declarations.rules ≠ []) :
    declarations.BlamesFirst variant 3 4 declarations.startSymbol := by
  have same := (distinct_lists_once declarations.starts).same
  have apart := (distinct_lists_once declarations.starts).nodup
  apply BlamesFirst.of_number (start_symbol_accepts given) (by decide)
  · intro error failed
    unfold startSymbol at failed
    split at failed
    · have missed := (require_eq_error_iff.1 failed).1
      simp [ruleSymbols, numberedSymbols, ruleNames, given] at missed
    · rename_i name one_declared
      rw [one_declared] at same
      obtain ⟨missed, blamed⟩ := require_eq_error_iff.1 failed
      cases blamed
      refine ⟨rfl, name, (same name).1 (by simp), ?_⟩
      rw [← numbered_symbol_found .nonterminal declarations.ruleNames]
      exact Option.not_isSome_iff_eq_none.2 missed
    · rename_i first second others several_declared
      cases failed
      rw [several_declared] at same apart
      refine ⟨rfl, first, (same first).1 (by simp), second, (same second).1 (by simp), ?_⟩
      rintro rfl
      simp at apart
  · intro agreed kind numbered breach
    cases kind with
    | conflictingStart =>
        obtain ⟨left, leftMember, right, rightMember, differ⟩ := breach
        exact differ (agreed.1 left leftMember right rightMember)
    | invalidStartRule =>
        obtain ⟨name, member, unknown⟩ := breach
        exact unknown (agreed.2 name member)
    | _ => cases numbered

theorem tokens_blame : declarations.BlamesFirst variant 4 5
    (declarations.tokenNames.forM declarations.checkToken) := by
  apply BlamesFirst.of_accepts .clashingName
    (AcceptsIff.for_m fun name _ => check_token_accepts)
  · apply RejectsOnly.for_m
    intro name _ error failed
    unfold checkToken at failed
    split at failed
    · cases failed
      rfl
    · split at failed <;> cases failed
      rfl
  · simp only [Breaks, mem_token_names]
    push Not
    simp only [or_iff_not_imp_left]
  · decide

theorem precedences_blame : declarations.BlamesFirst variant 5 6 declarations.precedences := by
  apply BlamesFirst.of_accepts .duplicatePrecedence precedences_accepts
  · exact RejectsOnly.of_distinct .duplicatePrecedence (fun _ => rfl) _
  · exact Iff.rfl
  · decide

variable {precedences : Register String Precedence}

theorem error_texts_blame : declarations.BlamesFirst variant 8 9
    (declarations.numberedErrorTexts (declarations.scope variant precedences)) := by
  apply BlamesFirst.of_accepts .unknownErrorText error_texts_accepts
  · apply RejectsOnly.bind
    · apply RejectsOnly.map_m
      intro entry _
      exact (RejectsOnly.of_require _ _).bind fun token => RejectsOnly.of_answer _
    · exact fun pairs => RejectsOnly.of_answer _
  · simp [Breaks]
  · decide

theorem implicit_tokens_blame : declarations.BlamesFirst variant 9 10
    (declarations.implicitTokenSymbols variant (declarations.scope variant precedences)) := by
  apply BlamesFirst.of_accepts .invalidImplicitTokens implicit_tokens_accepts
  · unfold implicitTokenSymbols
    split
    · exact RejectsOnly.of_answer _
    · exact RejectsOnly.of_rejection .implicitTokensRefused
    · apply RejectsOnly.bind
      · exact RejectsOnly.map_m fun name _ => RejectsOnly.of_require _ _
      · exact fun symbols => RejectsOnly.of_answer _
  · simp only [Breaks]
    push Not
    cases variant <;> simp
  · decide

section Alternatives

variable {alternative : Alternative} {error : DeclarationError}

theorem resolve_blames (listed : alternative ∈ declarations.alternatives)
    {reference : Reference} (occurs : reference ∈ alternative.references) {user : String}
    (failed : (declarations.scope variant precedences).resolve user reference =
      .error (.rejected error)) :
    declarations.Breaks variant error.kind ∧ error.kind.number = 6 := by
  cases reference with
  | rule name =>
      cases lookup : (declarations.scope variant precedences).rule? name with
      | some symbol =>
          rw [Scope.resolve, lookup] at failed
          cases failed
      | none =>
          rw [Scope.resolve, lookup] at failed
          cases failed
          refine ⟨⟨alternative, listed, name, occurs, ?_⟩, rfl⟩
          rw [← numbered_symbol_found .nonterminal declarations.ruleNames]
          exact Option.not_isSome_iff_eq_none.2 lookup
  | token name =>
      cases lookup : (declarations.scope variant precedences).token? name with
      | some symbol =>
          rw [Scope.resolve, lookup] at failed
          cases failed
      | none =>
          rw [Scope.resolve, lookup] at failed
          cases failed
          refine ⟨⟨alternative, listed, name, occurs, ?_⟩, rfl⟩
          rw [← token_found]
          exact Option.not_isSome_iff_eq_none.2 lookup
  | stray text => cases failed

theorem references_blame (listed : alternative ∈ declarations.alternatives)
    (named : ∀ reference ∈ alternative.references, reference.isName) {user : String}
    (failed : alternative.references.mapM
      ((declarations.scope variant precedences).resolve user) = .error (.rejected error)) :
    ¬declarations.Resolves alternative ∧ declarations.Breaks variant error.kind ∧
      error.kind.number = 6 := by
  have told : ∀ reference ∈ alternative.references,
      (decide (¬declarations.Defines reference) = true ↔ ∀ symbols,
        (declarations.scope variant precedences).resolve user reference ≠ .ok symbols) := by
    intro reference occurs
    rw [decide_eq_true_iff, ← (resolve_accepts user (named reference occurs)).answered_iff]
    push Not
    rfl
  obtain ⟨reference, earliest, blamed⟩ := except_map_m_first failed told
  have occurs := List.mem_of_find?_eq_some earliest
  have undefined : ¬declarations.Defines reference := by simpa using List.find?_some earliest
  exact ⟨fun resolves => undefined (resolves reference occurs),
    resolve_blames listed occurs blamed⟩

theorem number_of_sound
    (sound : ∀ alternative ∈ declarations.alternatives,
      declarations.Resolves alternative ∧ declarations.Ranks alternative)
    {kind : DeclarationErrorKind} (breach : declarations.Breaks variant kind) :
    kind.number ≠ 6 ∧ kind.number ≠ 7 := by
  cases kind with
  | unknownRuleReference | unknownToken =>
      obtain ⟨alternative, listed, name, occurs, unknown⟩ := breach
      exact absurd ((sound alternative listed).1 _ occurs) unknown
  | noPrecedenceForToken =>
      obtain ⟨alternative, listed, token, lent, unranked⟩ := breach
      exact absurd ((sound alternative listed).2 token lent) unranked
  | _ => decide

/-- What the first alternative at fault is blamed for has its turn first of the two. -/
theorem turn_of_blamed (earliest : declarations.firstFaulty? = some alternative)
    {kind : DeclarationErrorKind}
    (blamed : ¬declarations.Resolves alternative ∧ kind.number = 6 ∨
      declarations.Resolves alternative ∧ kind.number = 7) :
    declarations.turn kind = 6 := by
  rcases blamed with ⟨unresolved, number⟩ | ⟨resolved, number⟩
  · have straight : ¬declarations.PrecedenceFaultFirst := by
      intro swapped
      obtain ⟨other, found, resolved⟩ := swapped
      obtain rfl := Option.some.inj (earliest.symm.trans found)
      exact unresolved resolved
    rw [turn_eq_number straight, number]
  · have swapped : declarations.PrecedenceFaultFirst := ⟨alternative, earliest, resolved⟩
    simp [turn, swapped, number]

variable (accepted : declarations.precedences = .ok precedences)

include accepted

theorem check_precedence_blames {precedence : Option String}
    (failed : (declarations.scope variant precedences).checkPrecedence precedence =
      .error (.rejected error)) :
    error.kind = .noPrecedenceForToken ∧
      ∃ token ∈ precedence, token ∉ declarations.rankedTokens := by
  cases precedence with
  | none => cases failed
  | some token =>
      change (if precedences.contains token then _ else _) = _ at failed
      by_cases ranked : precedences.contains token
      · rw [if_pos ranked] at failed
        cases failed
      · rw [if_neg ranked] at failed
        cases failed
        exact ⟨rfl, token, rfl, fun known => ranked ((precedence_names accepted).2 known)⟩

theorem clause_blames (listed : alternative ∈ declarations.alternatives)
    (named : ∀ reference ∈ alternative.references, reference.isName) {lhs : Symbol}
    (failed : (declarations.scope variant precedences).clause lhs alternative =
      .error (.rejected error)) :
    declarations.Breaks variant error.kind ∧
      (¬declarations.Resolves alternative ∧ error.kind.number = 6 ∨
        declarations.Resolves alternative ∧ error.kind.number = 7) := by
  unfold Scope.clause at failed
  cases resolved : alternative.references.mapM
      ((declarations.scope variant precedences).resolve lhs.name) with
  | error fault =>
      rw [resolved] at failed
      cases failed
      obtain ⟨unresolved, broken, number⟩ := references_blame listed named resolved
      exact ⟨broken, Or.inl ⟨unresolved, number⟩⟩
  | ok symbols =>
      have resolves : declarations.Resolves alternative := fun reference occurs =>
        have answered := except_map_m_answered resolved reference occurs
        (resolve_accepts lhs.name (named reference occurs)).answered_iff.1
          (answered.imp fun _ found => found.2)
      rw [resolved] at failed
      cases ranked : (declarations.scope variant precedences).checkPrecedence
          alternative.precedence with
      | error fault =>
          change (_ >>= fun _ => _) = _ at failed
          rw [ranked] at failed
          cases failed
          obtain ⟨kind, token, lent, unranked⟩ := check_precedence_blames accepted ranked
          rw [kind]
          exact ⟨⟨alternative, listed, token, lent, unranked⟩, Or.inr ⟨resolves, rfl⟩⟩
      | ok checked =>
          change (_ >>= fun _ => _) = _ at failed
          rw [ranked] at failed
          cases failed

theorem clause_accepts_sound (named : ∀ reference ∈ alternative.references, reference.isName)
    {lhs : Symbol} :
    AcceptsIff ((declarations.scope variant precedences).clause lhs alternative)
      (declarations.Resolves alternative ∧ declarations.Ranks alternative) :=
  clause_accepts accepted named

theorem clause_fails_iff (named : ∀ reference ∈ alternative.references, reference.isName)
    {lhs : Symbol} :
    decide (¬(declarations.Resolves alternative ∧ declarations.Ranks alternative)) = true ↔
      ∀ clause, (declarations.scope variant precedences).clause lhs alternative ≠ .ok clause := by
  rw [decide_eq_true_iff, ← (clause_accepts_sound accepted named).answered_iff]
  push Not
  rfl

theorem clauses_fail (named : declarations.NamesOnly) {fault : Fault}
    (failed : declarations.clauses (declarations.scope variant precedences) = .error fault) :
    ∃ lhs alternative, declarations.firstFaulty? = some alternative ∧
      (declarations.scope variant precedences).clause lhs alternative = .error fault := by
  obtain ⟨pair, earliest, blamed⟩ := except_map_m_first failed fun pair among =>
    clause_fails_iff accepted (alternatives_of_clauses.2 named pair among)
  refine ⟨pair.1, pair.2, ?_, blamed⟩
  unfold firstFaulty?
  rw [← alternatives_paired, List.find?_map]
  exact congrArg (Option.map (·.2)) earliest

theorem clauses_blame (named : declarations.NamesOnly) : declarations.BlamesFirst variant 6 8
    (declarations.clauses (declarations.scope variant precedences)) := by
  cases outcome : declarations.clauses (declarations.scope variant precedences) with
  | ok made =>
      have sound := (clauses_accepts accepted named).answered_iff.1 ⟨made, outcome⟩
      refine Or.inl ⟨made, rfl, ?_⟩
      intro kind breach from_here
      rw [le_turn_iff (by decide)] at from_here ⊢
      have apart := number_of_sound sound breach
      omega
  | error fault =>
      obtain ⟨lhs, alternative, earliest, failed⟩ := clauses_fail accepted named outcome
      obtain ⟨listed, unsound⟩ := faulty_of_first earliest
      have names := named alternative listed
      obtain ⟨error, rejected⟩ := (clause_accepts_sound accepted names).rejected unsound
      obtain rfl := Except.error.inj (failed.symm.trans rejected)
      obtain ⟨broken, blamed⟩ := clause_blames accepted listed names failed
      refine Or.inr ⟨error, rfl, broken, ?_⟩
      intro kind _ from_here
      rwa [turn_of_blamed earliest blamed]

end Alternatives

end Checks

/-- The kinds of error have their turns in the order of their numbers, except that the checks of
references and precedences change places when the first alternative at fault has all its references
declared. A rejection names a rule that is broken, and no broken rule has its turn before it. -/
theorem rejection_names_first_breach (named : declarations.NamesOnly) :
    ((∃ grammar, declarations.build variant = .ok grammar) ∧
      ∀ kind, ¬declarations.Breaks variant kind) ∨
    ∃ error, declarations.build variant = .error (.rejected error) ∧
      declarations.Breaks variant error.kind ∧
      ∀ kind, declarations.Breaks variant kind →
        declarations.turn error.kind ≤ declarations.turn kind := by
  have chain : declarations.BlamesFirst variant 1 10 (declarations.build variant) :=
    check_rules_blames.bind fun _ checked =>
    (start_symbol_blames (check_rules_accepts.answered_iff.1 ⟨_, checked⟩).1).bind fun start _ =>
    tokens_blame.bind fun _ _ =>
    precedences_blame.bind fun precedences ranked =>
    (clauses_blame ranked named).bind fun clauses _ =>
    error_texts_blame.bind fun errorTexts _ =>
    implicit_tokens_blame.bind fun implicitTokens _ =>
    Or.inl ⟨declarations.grammarOf variant
      ⟨start, precedences, clauses, errorTexts, implicitTokens⟩, rfl, fun _ _ last => last⟩
  have started (kind : DeclarationErrorKind) : 1 ≤ declarations.turn kind :=
    (le_turn_iff (by decide)).2 kind.number_bounds.1
  rcases chain with ⟨grammar, built, unbroken⟩ | ⟨error, failed, broken, least⟩
  · refine Or.inl ⟨⟨grammar, built⟩, ?_⟩
    intro kind breach
    have beyond := (le_turn_iff (by decide)).1 (unbroken kind breach (started kind))
    exact absurd kind.number_bounds.2 (Nat.not_lt.2 beyond)
  · exact Or.inr ⟨error, failed, broken, fun kind breach => least kind breach (started kind)⟩

/-- A rule and a token that are not there, before and after a precedence that is not there. -/
def faultyAlternatives (first second : Alternative) : Declarations where
  rules := [⟨"S", [first, second]⟩]
  tokens := ["a", "b"]
  errorTexts := .ofPairs [("c", "sea")]

theorem faulty_reference_first :
    (faultyAlternatives ⟨[.token "c"], none⟩ ⟨[.token "a"], some "b"⟩).NamesOnly ∧
      (faultyAlternatives ⟨[.token "c"], none⟩ ⟨[.token "a"], some "b"⟩).build .plain =
        .error (.rejected (.unknownToken "S" "c")) ∧
      ∀ kind, (faultyAlternatives ⟨[.token "c"], none⟩ ⟨[.token "a"], some "b"⟩).Breaks .plain
        kind → 6 ≤ kind.number := by
  have named : (faultyAlternatives ⟨[.token "c"], none⟩ ⟨[.token "a"], some "b"⟩).NamesOnly := by
    decide
  have failed : (faultyAlternatives ⟨[.token "c"], none⟩ ⟨[.token "a"], some "b"⟩).build .plain =
      .error (.rejected (.unknownToken "S" "c")) := rfl
  have blamed_first : (_ ∧ _) ∨ ∃ error, (faultyAlternatives ⟨[.token "c"], none⟩
      ⟨[.token "a"], some "b"⟩).build .plain = .error (.rejected error) ∧ _ :=
    rejection_names_first_breach named
  refine ⟨named, failed, ?_⟩
  rcases blamed_first with built | rejected
  · obtain ⟨⟨grammar, built⟩, _⟩ := built
    rw [failed] at built
    cases built
  · obtain ⟨error, blamed, _, least⟩ := rejected
    obtain ⟨⟩ := failed.symm.trans blamed
    intro kind breach
    exact (le_turn_iff (by decide)).1 (least kind breach)

/-- A precedence is blamed, although a later alternative refers to an unknown rule. -/
theorem precedence_blamed_before_reference :
    (faultyAlternatives ⟨[.token "a"], some "b"⟩ ⟨[.rule "X"], none⟩).NamesOnly ∧
      (faultyAlternatives ⟨[.token "a"], some "b"⟩ ⟨[.rule "X"], none⟩).build .plain =
        .error (.rejected (.noPrecedence "b")) ∧
      (faultyAlternatives ⟨[.token "a"], some "b"⟩ ⟨[.rule "X"], none⟩).Breaks .plain
        .unknownRuleReference ∧
      DeclarationErrorKind.unknownRuleReference.number <
        (DeclarationError.noPrecedence "b").kind.number :=
  ⟨by decide, rfl, ⟨⟨[.rule "X"], none⟩, by decide, "X", by decide, by decide⟩, by decide⟩

end Declarations

end GrammarKit
