import GrammarKit.Proofs.Generator.Cheapest
import GrammarKit.Proofs.Implicit.Simulation
import GrammarKit.Proofs.Precedences
import GrammarKit.Proofs.Productive
import GrammarKit.Proofs.Reachable

/-!
# What an implicit rule leaves alone

The implicit rule stands behind tokens only, where no declared nonterminal begins, ends or touches
what comes next. So the forms of a declared nonterminal begin and vanish as before, the same
terminals follow it, and it derives tokens or is reached exactly when it was. Its cheapest text
contains no padding and costs the same. The nearest token with a precedence is the same one too.
-/

namespace GrammarKit

set_option autoImplicit false

theorem neighbours_before_last {body front after : List Symbol} {last symbol next : Symbol}
    (shape : body ++ [last] = front ++ symbol :: next :: after) :
    (next = last ∧ body = front ++ [symbol]) ∨
      ∃ inner, body = front ++ symbol :: next :: inner := by
  rcases List.eq_nil_or_concat after with rfl | ⟨inner, final, rfl⟩
  · left
    have split : body ++ [last] = (front ++ [symbol]) ++ [next] := by simpa using shape
    rcases List.append_inj' split rfl with ⟨same, single⟩
    exact ⟨(List.cons.inj single).1.symm, same⟩
  · right
    have split : body ++ [last] = (front ++ symbol :: next :: inner) ++ [final] := by
      simpa using shape
    exact ⟨inner, (List.append_inj' split rfl).1⟩

theorem behind_of_absent {row rest front after : List Symbol} {symbol : Symbol}
    (absent : symbol ∉ row) (shape : row ++ rest = front ++ symbol :: after) :
    ∃ inner, rest = inner ++ symbol :: after := by
  rcases List.append_eq_append_iff.1 shape with ⟨inner, _, later⟩ | ⟨inner, inside, later⟩
  · exact ⟨inner, later⟩
  · cases inner with
    | nil => exact ⟨[], later.symm⟩
    | cons head inner =>
        rw [List.cons_append, List.cons.injEq] at later
        rcases later with ⟨rfl, _⟩
        exact absurd (inside ▸ List.mem_append_right _ List.mem_cons_self) absent

theorem terminal_sets_eq {terminals : List Symbol} {left right : IndexSet}
    (leftKnown : ∀ index ∈ left, ∃ terminal ∈ terminals, terminal.index = index)
    (rightKnown : ∀ index ∈ right, ∃ terminal ∈ terminals, terminal.index = index)
    (same : ∀ terminal ∈ terminals, (terminal.index ∈ left ↔ terminal.index ∈ right)) :
    left = right := by
  apply SortedSet.eq_of_same_members
  intro index
  constructor
  · intro found
    obtain ⟨terminal, among, rfl⟩ := leftKnown index found
    exact (same terminal among).1 found
  · intro found
    obtain ⟨terminal, among, rfl⟩ := rightKnown index found
    exact (same terminal among).2 found

namespace Scheme.Relates

variable {scheme : Scheme} {plain padded : Grammar} (related : scheme.Relates plain padded)
  {user : Symbol} (member : user ∈ scheme.users)

include related

theorem user_not_in_row {row : List Symbol} (fits : scheme.Row row) {user : Symbol}
    (member : user ∈ scheme.users) : user ∉ row := by
  intro inside
  rcases fits.mem inside with rfl | filler
  · exact related.skip_apart member
  · have kind := related.user_kinds user member
    rw [related.filler_kinds user filler] at kind
    cases kind

/-- The forms of the augmented start add nothing but the end of the input. -/
theorem plain_follows_iff {terminal : Symbol} : plain.Follows user terminal ↔
    (∃ origin ∈ scheme.users, ∃ before after,
      plain.Derives [origin] (before ++ user :: terminal :: after)) ∨
    terminal = plain.eof ∧ plain.EndsInput user := by
  constructor
  · intro follows
    rcases follows with ⟨origin, known, before, after, derivation⟩ | ending
    · rw [related.plain_nonterminals] at known
      rcases List.mem_append.1 known with declared | last
      · exact Or.inl ⟨origin, declared, before, after, derivation⟩
      · rw [List.mem_singleton.1 last] at derivation
        rcases related.plain_augmented_derives_iff.1 derivation with single | ⟨form, derived, shape⟩
        · have lengths := congrArg List.length single
          simp only [List.length_append, List.length_cons, List.length_nil] at lengths
          omega
        · rcases neighbours_before_last shape.symm with ⟨rfl, rfl⟩ | ⟨inner, rfl⟩
          · exact Or.inr ⟨rfl, before, derived⟩
          · exact Or.inl ⟨plain.start, related.start_user, before, inner, derived⟩
    · exact Or.inr ending
  · intro follows
    rcases follows with ⟨origin, declared, inside⟩ | ending
    · exact Or.inl ⟨origin, related.user_known_plain declared, inside⟩
    · exact Or.inr ending

include member

/-- A declared nonterminal of a padded form comes from the form, and so does what is behind it. -/
theorem user_place {form before after : List Symbol}
    (whole : Padded scheme.Gap form (before ++ user :: after)) :
    ∃ left right, form = left ++ user :: right ∧ Padded scheme.Gap right after := by
  cases whole.place rfl with
  | own _ fits back =>
      cases fits with
      | token terminal _ =>
          rw [related.user_kinds user member] at terminal
          cases terminal
      | user _ => exact ⟨_, _, rfl, back⟩
  | inRow _ fits _ =>
      rcases fits.of_filled (by simp) with ⟨_, row⟩
      exact absurd (by simp) (related.user_not_in_row row member)

theorem derives_woven {form : List Symbol} (derivation : plain.Derives [user] form) :
    scheme.Declared form ∧ padded.Derives [user] (scheme.weave form) := by
  have declared : scheme.Declared [user] := by
    intro symbol among
    rw [List.mem_singleton.1 among]
    exact Or.inr member
  have later := related.declared_after_derivation declared derivation
  exact ⟨later, (related.derives_iff member).2 ⟨form, derivation, related.padded_weave later⟩⟩

section First

theorem vanishes_iff : padded.Derives [user] [] ↔ plain.Derives [user] [] := by
  constructor
  · intro derivation
    obtain ⟨form, derived, whole⟩ := (related.derives_iff member).1 derivation
    cases whole
    exact derived
  · intro derivation
    exact (related.derives_woven member derivation).2

theorem begins_iff {terminal : Symbol} (kind : terminal.isTerminal) :
    padded.Begins [user] terminal ↔ plain.Begins [user] terminal := by
  constructor
  · intro begins
    rcases begins with ⟨rest, derivation⟩
    obtain ⟨form, derived, whole⟩ := (related.derives_iff member).1 derivation
    cases whole with
    | cons _ _ => exact ⟨_, derived⟩
  · intro begins
    rcases begins with ⟨rest, derivation⟩
    have woven := (related.derives_woven member derivation).2
    rw [weave_terminal kind] at woven
    exact ⟨_, woven⟩

theorem first_entry_eq {plainTable paddedTable : FirstTable} (exact : plainTable.Exact plain)
    (paddedExact : paddedTable.Exact padded) : paddedTable.entry user = plainTable.entry user := by
  have known : plain.Knows user := Or.inr (related.user_known_plain member)
  have paddedKnown : padded.Knows user := Or.inr (related.user_known_padded member)
  have terminals := related.same_terminals
  have tokens : (paddedTable.entry user).tokens = (plainTable.entry user).tokens := by
    apply terminal_sets_eq (paddedExact.entry_tokens_known paddedKnown)
      (terminals ▸ exact.entry_tokens_known known)
    intro terminal among
    rw [paddedExact.entry_begins_iff paddedKnown terminal among,
      exact.entry_begins_iff known terminal (terminals ▸ among)]
    exact related.begins_iff member (related.padded_whole.terminal_kind among)
  have nullable : (paddedTable.entry user).nullable = (plainTable.entry user).nullable := by
    rw [Bool.eq_iff_iff, exact.entry_vanishes_iff known,
      paddedExact.entry_vanishes_iff paddedKnown]
    exact related.vanishes_iff member
  cases paddedEntry : paddedTable.entry user
  cases plainEntry : plainTable.entry user
  rw [paddedEntry, plainEntry] at tokens nullable
  exact congrArg₂ First.mk tokens nullable

end First

section Follow

theorem padded_adjacent {origin terminal : Symbol} (declared : origin ∈ scheme.users)
    {before after : List Symbol}
    (derivation : padded.Derives [origin] (before ++ user :: terminal :: after)) :
    ∃ left right, plain.Derives [origin] (left ++ user :: terminal :: right) := by
  obtain ⟨form, derived, whole⟩ := (related.derives_iff declared).1 derivation
  obtain ⟨left, right, rfl, behind⟩ := related.user_place member whole
  cases behind with
  | cons _ _ => exact ⟨left, _, derived⟩

theorem padded_ending {before : List Symbol}
    (derivation : padded.Derives [plain.start] (before ++ [user])) : plain.EndsInput user := by
  obtain ⟨form, derived, whole⟩ := (related.derives_iff related.start_user).1 derivation
  obtain ⟨left, right, rfl, behind⟩ := related.user_place member whole
  cases behind
  exact ⟨left, derived⟩

theorem plain_follows_of_augmented {terminal : Symbol} {before after : List Symbol}
    (derivation : padded.Derives [padded.augmentedStart] (before ++ user :: terminal :: after)) :
    plain.Follows user terminal := by
  rcases related.padded_augmented_derives_iff.1 derivation with
    single | ⟨row, form, body, fits, derived, whole, shape⟩
  · have lengths := congrArg List.length single
    simp only [List.length_append, List.length_cons, List.length_nil] at lengths
    omega
  · obtain ⟨front, later⟩ := behind_of_absent (related.user_not_in_row fits member) shape.symm
    have inner := (related.derives_iff related.start_user).2 ⟨form, derived, whole⟩
    rcases neighbours_before_last later with ⟨rfl, rfl⟩ | ⟨last, rfl⟩
    · exact Or.inr ⟨rfl, related.padded_ending member inner⟩
    · obtain ⟨left, right, adjacent⟩ := related.padded_adjacent member related.start_user inner
      exact Or.inl ⟨plain.start, related.user_known_plain related.start_user, left, right, adjacent⟩

theorem follows_iff {terminal : Symbol} :
    padded.Follows user terminal ↔ plain.Follows user terminal := by
  constructor
  · intro follows
    rcases follows with ⟨origin, known, before, after, derivation⟩ | ⟨last, before, derivation⟩
    · rw [related.padded_nonterminals] at known
      rcases List.mem_append.1 known with known | final
      · rcases List.mem_append.1 known with declared | skip
        · obtain ⟨left, right, adjacent⟩ := related.padded_adjacent member declared derivation
          exact Or.inl ⟨origin, related.user_known_plain declared, left, right, adjacent⟩
        · rw [List.mem_singleton.1 skip] at derivation
          have row := related.row_after_derivation .more derivation
          exact absurd (by simp) (related.user_not_in_row row member)
      · rw [List.mem_singleton.1 final] at derivation
        exact related.plain_follows_of_augmented member derivation
    · rw [related.same_start] at derivation
      rw [related.same_eof] at last
      exact Or.inr ⟨last, related.padded_ending member derivation⟩
  · intro follows
    have kind := related.user_kinds user member
    rcases related.plain_follows_iff.1 follows with
      ⟨origin, declared, before, after, derivation⟩ | ⟨last, before, derivation⟩
    · have woven := (related.derives_woven declared derivation).2
      rw [weave_append, weave_nonterminal kind] at woven
      refine Or.inl ⟨origin, related.user_known_padded declared, scheme.weave before, ?_⟩
      by_cases terminalKind : terminal.isTerminal
      · rw [weave_terminal terminalKind] at woven
        exact ⟨_, woven⟩
      · rw [weave_nonterminal (by simpa using terminalKind)] at woven
        exact ⟨_, woven⟩
    · have woven := (related.derives_woven related.start_user derivation).2
      rw [weave_append, weave_nonterminal kind, weave_nil] at woven
      refine Or.inr ⟨last.trans related.same_eof.symm, scheme.weave before, ?_⟩
      rwa [related.same_start]

theorem follow_tokens_eq {plainTable paddedTable : FollowTable} (exact : plainTable.Exact plain)
    (paddedExact : paddedTable.Exact padded) :
    paddedTable.tokensOf user.index = plainTable.tokensOf user.index := by
  have known := related.user_known_plain member
  have paddedKnown := related.user_known_padded member
  have terminals := related.same_terminals
  apply terminal_sets_eq (paddedExact.tokens_known user paddedKnown)
    (terminals ▸ exact.tokens_known user known)
  intro terminal among
  rw [paddedExact.follows_iff user paddedKnown terminal among,
    exact.follows_iff user known terminal (terminals ▸ among)]
  exact related.follows_iff member

end Follow

section Reach

theorem reaches_iff : padded.Reaches padded.augmentedStart user ↔
    plain.Reaches plain.augmentedStart user := by
  have kind := related.user_kinds user member
  have proper : user ≠ plain.eof := by
    rintro rfl
    cases kind.symm.trans related.eof_kind
  constructor
  · intro reached
    rcases reached with ⟨before, after, derivation⟩
    rcases related.padded_augmented_derives_iff.1 derivation with
      single | ⟨row, form, body, fits, derived, whole, shape⟩
    · have own : user ∈ [padded.augmentedStart] := single ▸ by simp
      rw [List.mem_singleton.1 own] at member
      exact absurd (List.mem_cons_of_mem _ member) related.padded_augmented_apart
    · obtain ⟨front, later⟩ := behind_of_absent (related.user_not_in_row fits member) shape.symm
      have inside : user ∈ body := by
        have occurs : user ∈ body ++ [plain.eof] := later ▸ by simp
        rcases List.mem_append.1 occurs with inside | last
        · exact inside
        · exact absurd (List.mem_singleton.1 last) proper
      obtain ⟨left, right, rfl⟩ := List.append_of_mem inside
      obtain ⟨first, last, rfl, _⟩ := related.user_place member whole
      refine ⟨first, last ++ [plain.eof], ?_⟩
      apply related.plain_augmented_derives_iff.2
      exact Or.inr ⟨_, derived, by simp⟩
  · intro reached
    rcases reached with ⟨before, after, derivation⟩
    rcases related.plain_augmented_derives_iff.1 derivation with single | ⟨form, derived, shape⟩
    · have own : user ∈ [plain.augmentedStart] := single ▸ by simp
      rw [List.mem_singleton.1 own] at member
      exact absurd member related.plain_augmented_apart
    · have inside : user ∈ form := by
        have occurs : user ∈ form ++ [plain.eof] := shape ▸ by simp
        rcases List.mem_append.1 occurs with inside | last
        · exact inside
        · exact absurd (List.mem_singleton.1 last) proper
      obtain ⟨left, right, rfl⟩ := List.append_of_mem inside
      have whole := related.padded_weave (related.derives_woven related.start_user derived).1
      rw [weave_append, weave_nonterminal kind] at whole
      refine ⟨scheme.weave left, scheme.weave right ++ [plain.eof], ?_⟩
      apply related.padded_augmented_derives_iff.2
      exact Or.inr ⟨[], _, _, .done, derived, whole, by simp⟩

theorem derives_tokens_iff : padded.DerivesTokens user ↔ plain.DerivesTokens user := by
  constructor
  · intro derives
    rcases derives with ⟨text, terminals, derivation⟩
    obtain ⟨tokens, derived, whole⟩ := (related.derives_iff member).1 derivation
    exact ⟨tokens, fun token among => terminals token (whole.subset among), derived⟩
  · intro derives
    rcases derives with ⟨tokens, terminals, derivation⟩
    refine ⟨tokens, terminals, (related.derives_iff member).2 ⟨tokens, derivation, ?_⟩⟩
    exact padded_self terminals

end Reach

section Costs

/-- Padding costs nothing where it is left out, and it may be left out everywhere. -/
theorem cheapest_text_iff {costs : TokenCosts} (signed : costs.Signed padded) {least : Int} :
    padded.CheapestText costs user least ↔ plain.CheapestText costs user least := by
  have kept : ∀ text, plain.Generates user text → padded.Generates user text := by
    intro text generated
    rcases generated with ⟨terminals, derived⟩
    exact ⟨terminals, (related.derives_iff member).2 ⟨text, derived, padded_self terminals⟩⟩
  have known : padded.Knows user := Or.inr (related.user_known_padded member)
  have bare : ∀ text, padded.Generates user text →
      ∃ tokens, plain.Generates user tokens ∧
        Grammar.textCost costs tokens ≤ Grammar.textCost costs text := by
    intro text generated
    obtain ⟨tokens, derived, whole⟩ := (related.derives_iff member).1 generated.2
    refine ⟨tokens, ⟨fun token among => generated.1 token (whole.subset among), derived⟩, ?_⟩
    apply (whole.sublist.map costs.of).sum_le_sum
    intro amount among
    obtain ⟨token, inside, rfl⟩ := List.mem_map.1 among
    exact signed token (generated.terminals_known related.padded_whole known token inside)
  constructor
  · intro cheapest
    obtain ⟨⟨text, generated, rfl⟩, least⟩ := cheapest
    obtain ⟨tokens, tokensGenerated, below⟩ := bare text generated
    have same := Int.le_antisymm below (least tokens (kept tokens tokensGenerated))
    refine ⟨⟨tokens, tokensGenerated, same⟩, ?_⟩
    intro other otherGenerated
    exact least other (kept other otherGenerated)
  · intro cheapest
    obtain ⟨⟨tokens, generated, rfl⟩, least⟩ := cheapest
    refine ⟨⟨tokens, kept tokens generated, rfl⟩, ?_⟩
    intro text textGenerated
    obtain ⟨others, othersGenerated, below⟩ := bare text textGenerated
    exact Int.le_trans (least others othersGenerated) below

end Costs

omit member

section Precedences

theorem precedence_of_eq (terminal : Symbol) :
    padded.precedenceOf terminal = plain.precedenceOf terminal := by
  rw [Grammar.precedenceOf, related.same_precedences]
  rfl

theorem first_precedence_woven (form : List Symbol) :
    padded.firstPrecedence (scheme.weave form).reverse = plain.firstPrecedence form.reverse := by
  induction form with
  | nil => rfl
  | cons symbol form ih =>
      rw [List.reverse_cons, Grammar.first_precedence_append, ← ih]
      cases kind : symbol.isTerminal with
      | true =>
          rw [weave_terminal kind, List.reverse_cons, List.reverse_cons, List.append_assoc,
            Grammar.first_precedence_append]
          change (padded.firstPrecedence _).or (padded.firstPrecedence [scheme.skip, symbol]) = _
          rw [padded.first_precedence_of_nonterminal related.skip_kind,
            padded.first_precedence_of_terminal kind, plain.first_precedence_of_terminal kind,
            related.precedence_of_eq]
          rfl
      | false =>
          rw [weave_nonterminal kind, List.reverse_cons, Grammar.first_precedence_append,
            padded.first_precedence_of_nonterminal kind, plain.first_precedence_of_nonterminal kind]
          rfl

theorem production_precedence_eq (production : Production) :
    padded.productionPrecedence (scheme.weaveProduction production) =
      plain.productionPrecedence production := by
  unfold Grammar.productionPrecedence weaveProduction
  cases production.precedence with
  | some name => exact congrArg (Register.find? · name) related.same_precedences
  | none => exact related.first_precedence_woven production.rhs

end Precedences

end Scheme.Relates

end GrammarKit
