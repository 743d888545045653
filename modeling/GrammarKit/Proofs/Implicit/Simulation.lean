import GrammarKit.Proofs.Derivations
import GrammarKit.Proofs.Implicit.Padding

/-!
# What an implicit rule adds to derivations

Two grammars share their tokens and the nonterminals that their author declared. One of them has an
implicit rule behind every token of these nonterminals and in front of the start symbol. Each form
that a declared nonterminal derives in the grammar with the implicit rule is a padded form of the
other grammar, step by step: a step of a declared nonterminal is one step there, and a step of the
implicit rule changes a row of the padding only. The other way round each padded form is derived.
-/

namespace GrammarKit

set_option autoImplicit false

/-- What a padding is made of: the declared nonterminals, the implicit rule with its productions,
and the tokens it derives. -/
structure Scheme where
  users : List Symbol
  skip : Symbol
  loops : List Production
  fillers : List Symbol

namespace Scheme

/-- What the implicit rule derives. -/
inductive Row (scheme : Scheme) : List Symbol → Prop where
  | done : Row scheme []
  | more : Row scheme [scheme.skip]
  | token {filler : Symbol} {row : List Symbol} (listed : filler ∈ scheme.fillers)
      (rest : Row scheme row) : Row scheme (filler :: row)

/-- A row stands behind a token, and nothing behind a declared nonterminal. -/
inductive Gap (scheme : Scheme) : Symbol → List Symbol → Prop where
  | token {symbol : Symbol} {row : List Symbol} (terminal : symbol.isTerminal)
      (fits : scheme.Row row) : Gap scheme symbol row
  | user {symbol : Symbol} (member : symbol ∈ scheme.users) : Gap scheme symbol []

/-- Puts the implicit rule behind each token. -/
def weave (scheme : Scheme) (form : List Symbol) : List Symbol :=
  form.flatMap fun symbol => if symbol.isTerminal then [symbol, scheme.skip] else [symbol]

def weaveProduction (scheme : Scheme) (production : Production) : Production :=
  { production with rhs := scheme.weave production.rhs }

/-- A form of tokens and declared nonterminals. -/
def Declared (scheme : Scheme) (form : List Symbol) : Prop :=
  ∀ symbol ∈ form, symbol.isTerminal ∨ symbol ∈ scheme.users

structure Relates (scheme : Scheme) (plain padded : Grammar) : Prop where
  plain_whole : plain.WellFormed
  padded_whole : padded.WellFormed
  same_tokens : padded.tokens = plain.tokens
  same_eof : padded.eof = plain.eof
  same_start : padded.start = plain.start
  same_precedences : padded.precedences = plain.precedences
  plain_nonterminals : plain.nonterminals = scheme.users ++ [plain.augmentedStart]
  padded_nonterminals : padded.nonterminals =
    scheme.users ++ [scheme.skip] ++ [padded.augmentedStart]
  filler_kinds : ∀ filler ∈ scheme.fillers, filler.isTerminal
  skip_apart : scheme.skip ∉ scheme.users
  start_user : plain.start ∈ scheme.users
  heads_declared : ∀ production ∈ plain.leading, production.lhs ∈ scheme.users
  bodies_declared : ∀ production ∈ plain.leading, scheme.Declared production.rhs
  leading_woven : padded.leading = plain.leading.map scheme.weaveProduction ++ scheme.loops
  loop_heads : ∀ production ∈ scheme.loops, production.lhs = scheme.skip
  loop_bodies : ∀ production ∈ scheme.loops, scheme.Row production.rhs
  last_loop : ∃ production ∈ scheme.loops, production.rhs = []
  token_loop : ∀ filler ∈ scheme.fillers,
    ∃ production ∈ scheme.loops, production.rhs = [filler, scheme.skip]
  plain_start : plain.startProduction.rhs = [plain.start, plain.eof]
  padded_start : padded.startProduction.rhs = [scheme.skip, plain.start, plain.eof]
  plain_augmented_apart : plain.augmentedStart ∉ scheme.users
  padded_augmented_apart : padded.augmentedStart ∉ scheme.skip :: scheme.users

section Weaving

variable {scheme : Scheme}

@[simp]
theorem weave_nil : scheme.weave [] = [] := rfl

@[simp]
theorem weave_append (left right : List Symbol) :
    scheme.weave (left ++ right) = scheme.weave left ++ scheme.weave right := List.flatMap_append

theorem weave_terminal {symbol : Symbol} (terminal : symbol.isTerminal) (rest : List Symbol) :
    scheme.weave (symbol :: rest) = symbol :: scheme.skip :: scheme.weave rest := by
  simp [weave, terminal]

theorem weave_nonterminal {symbol : Symbol} (nonterminal : symbol.isTerminal = false)
    (rest : List Symbol) : scheme.weave (symbol :: rest) = symbol :: scheme.weave rest := by
  simp [weave, nonterminal]

theorem Row.mem {row : List Symbol} (fits : scheme.Row row) {symbol : Symbol}
    (member : symbol ∈ row) : symbol = scheme.skip ∨ symbol ∈ scheme.fillers := by
  induction fits with
  | done => cases member
  | more => exact Or.inl (List.mem_singleton.1 member)
  | token listed _ ih =>
      rcases List.mem_cons.1 member with rfl | later
      · exact Or.inr listed
      · exact ih later

theorem Row.of_fillers {row : List Symbol} (listed : ∀ token ∈ row, token ∈ scheme.fillers) :
    scheme.Row row := by
  induction row with
  | nil => exact .done
  | cons filler row ih =>
      apply Row.token (listed filler (by simp))
      exact ih fun token member => listed token (by simp [member])

theorem padded_self {tokens : List Symbol} (terminals : ∀ token ∈ tokens, token.isTerminal) :
    Padded scheme.Gap tokens tokens := by
  induction tokens with
  | nil => exact .nil
  | cons token tokens ih =>
      have rest := ih fun other member => terminals other (by simp [member])
      exact .cons (.token (terminals token (by simp)) .done) rest

theorem Gap.of_filled {symbol : Symbol} {row : List Symbol} (fits : scheme.Gap symbol row)
    (filled : row ≠ []) : symbol.isTerminal ∧ scheme.Row row := by
  cases fits with
  | token terminal fits => exact ⟨terminal, fits⟩
  | user member => exact absurd rfl filled

end Weaving

namespace Relates

variable {scheme : Scheme} {plain padded : Grammar} (related : scheme.Relates plain padded)

include related

section Productions

theorem same_terminals : padded.terminals = plain.terminals := by
  rw [Grammar.terminals, related.same_tokens, related.same_eof]
  rfl

theorem user_known_plain {user : Symbol} (member : user ∈ scheme.users) :
    user ∈ plain.nonterminals := by
  rw [related.plain_nonterminals]
  exact List.mem_append_left _ member

theorem user_known_padded {user : Symbol} (member : user ∈ scheme.users) :
    user ∈ padded.nonterminals := by
  rw [related.padded_nonterminals, List.append_assoc]
  exact List.mem_append_left _ member

theorem user_kinds (user : Symbol) (member : user ∈ scheme.users) : user.isTerminal = false :=
  related.plain_whole.nonterminal_kind (related.user_known_plain member)

theorem skip_kind : scheme.skip.isTerminal = false := by
  apply related.padded_whole.nonterminal_kind
  rw [related.padded_nonterminals]
  simp

theorem eof_kind : plain.eof.isTerminal :=
  related.plain_whole.terminal_kind (by simp [Grammar.terminals])

theorem woven_mem {production : Production} (member : production ∈ plain.leading) :
    scheme.weaveProduction production ∈ padded.productions := by
  rw [Grammar.productions, related.leading_woven]
  simp [List.mem_map_of_mem member]

theorem loop_mem {production : Production} (member : production ∈ scheme.loops) :
    production ∈ padded.productions := by
  rw [Grammar.productions, related.leading_woven]
  simp [member]

theorem padded_production_cases {production : Production}
    (member : production ∈ padded.productions) :
    (∃ own ∈ plain.leading, production = scheme.weaveProduction own) ∨
      production ∈ scheme.loops ∨ production = padded.startProduction := by
  rw [Grammar.productions, related.leading_woven] at member
  rcases List.mem_append.1 member with leading | last
  · rcases List.mem_append.1 leading with woven | loop
    · obtain ⟨own, among, rfl⟩ := List.mem_map.1 woven
      exact Or.inl ⟨own, among, rfl⟩
    · exact Or.inr (Or.inl loop)
  · exact Or.inr (Or.inr (List.mem_singleton.1 last))

theorem user_production {production : Production} (member : production ∈ padded.productions)
    (user : production.lhs ∈ scheme.users) :
    ∃ own ∈ plain.leading, production = scheme.weaveProduction own := by
  rcases related.padded_production_cases member with woven | loop | rfl
  · exact woven
  · rw [related.loop_heads production loop] at user
    exact absurd user related.skip_apart
  · exact absurd (List.mem_cons_of_mem _ user) related.padded_augmented_apart

theorem skip_production {production : Production} (member : production ∈ padded.productions)
    (head : production.lhs = scheme.skip) : production ∈ scheme.loops := by
  rcases related.padded_production_cases member with ⟨own, among, rfl⟩ | loop | rfl
  · have user := related.heads_declared own among
    rw [show own.lhs = scheme.skip from head] at user
    exact absurd user related.skip_apart
  · exact loop
  · exact absurd (head.symm ▸ List.mem_cons_self) related.padded_augmented_apart

theorem padded_start_production {production : Production}
    (member : production ∈ padded.productions)
    (head : production.lhs = padded.augmentedStart) : production = padded.startProduction := by
  rcases related.padded_production_cases member with ⟨own, among, rfl⟩ | loop | same
  · have user := related.heads_declared own among
    rw [show own.lhs = padded.augmentedStart from head] at user
    exact absurd (List.mem_cons_of_mem _ user) related.padded_augmented_apart
  · rw [related.loop_heads production loop] at head
    exact absurd (head ▸ List.mem_cons_self) related.padded_augmented_apart
  · exact same

theorem own_production {production : Production} (member : production ∈ plain.productions)
    (declared : production.lhs.isTerminal ∨ production.lhs ∈ scheme.users) :
    production ∈ plain.leading := by
  rcases List.mem_append.1 member with leading | last
  · exact leading
  · rw [List.mem_singleton.1 last] at declared
    rcases declared with terminal | user
    · have head := related.plain_whole.heads_known plain.startProduction
        (List.mem_append_right _ List.mem_cons_self)
      cases terminal.symm.trans (related.plain_whole.nonterminal_kind head)
    · exact absurd user related.plain_augmented_apart

theorem plain_start_production {production : Production} (member : production ∈ plain.productions)
    (head : production.lhs = plain.augmentedStart) : production = plain.startProduction := by
  rcases List.mem_append.1 member with leading | last
  · have user := related.heads_declared production leading
    rw [head] at user
    exact absurd user related.plain_augmented_apart
  · exact List.mem_singleton.1 last

end Productions

section Rows

/-- A row goes on behind its tokens only, and the implicit rule is its last symbol. -/
theorem row_split {before after : List Symbol} (fits : scheme.Row (before ++ scheme.skip :: after)) :
    after = [] ∧ ∀ row, scheme.Row row → scheme.Row (before ++ row) := by
  induction before with
  | nil =>
      generalize shape : scheme.skip :: after = row at fits
      cases fits with
      | done => cases shape
      | more => exact ⟨(List.cons.inj shape).2, fun row fits => fits⟩
      | token listed _ =>
          have terminal := related.filler_kinds _ ((List.cons.inj shape).1 ▸ listed)
          rw [related.skip_kind] at terminal
          cases terminal
  | cons first before ih =>
      generalize shape : first :: before ++ scheme.skip :: after = row at fits
      cases fits with
      | done => cases shape
      | more =>
          have nothing := (List.cons.inj shape).2
          simp at nothing
      | token listed rest =>
          rcases List.cons.inj shape with ⟨rfl, rfl⟩
          rcases ih rest with ⟨last, continued⟩
          exact ⟨last, fun row fits => .token listed (continued row fits)⟩

theorem row_after_step {row next : List Symbol} (fits : scheme.Row row)
    (step : padded.Step row next) : scheme.Row next := by
  cases step with
  | @expand production member before after =>
      have head : production.lhs = scheme.skip := by
        rcases fits.mem (List.mem_append_right _ List.mem_cons_self) with same | filler
        · exact same
        · have kind := related.padded_whole.nonterminal_kind
            (related.padded_whole.heads_known production member)
          rw [related.filler_kinds _ filler] at kind
          cases kind
      rw [head] at fits
      rcases related.row_split fits with ⟨rfl, continued⟩
      rw [List.append_nil]
      apply continued
      exact related.loop_bodies production (related.skip_production member head)

theorem row_after_derivation {row final : List Symbol} (fits : scheme.Row row)
    (derivation : padded.Derives row final) : scheme.Row final := by
  induction derivation with
  | refl => exact fits
  | tail _ last ih => exact related.row_after_step ih last

theorem skip_derives_row {row : List Symbol} (fits : scheme.Row row) :
    padded.Derives [scheme.skip] row := by
  induction fits with
  | done =>
      obtain ⟨production, among, body⟩ := related.last_loop
      have applied := Grammar.Derives.of_production (related.loop_mem among)
      rwa [related.loop_heads production among, body] at applied
  | more => exact .refl
  | @token filler row listed _ ih =>
      obtain ⟨production, among, body⟩ := related.token_loop filler listed
      have applied := Grammar.Derives.of_production (related.loop_mem among)
      rw [related.loop_heads production among, body] at applied
      exact applied.trans (ih.behind [filler])

end Rows

section Forwards

theorem declared_after_step {form next : List Symbol} (declared : scheme.Declared form)
    (step : plain.Step form next) : scheme.Declared next := by
  cases step with
  | @expand production member before after =>
      have own := related.own_production member (declared production.lhs (by simp))
      have body := related.bodies_declared production own
      intro symbol occurs
      simp only [List.mem_append] at occurs
      rcases occurs with (front | inside) | back
      · exact declared symbol (by simp [front])
      · exact body symbol inside
      · exact declared symbol (by simp [back])

theorem declared_after_derivation {form final : List Symbol} (declared : scheme.Declared form)
    (derivation : plain.Derives form final) : scheme.Declared final := by
  induction derivation with
  | refl => exact declared
  | tail _ last ih => exact related.declared_after_step ih last

theorem woven_step {form next : List Symbol} (declared : scheme.Declared form)
    (step : plain.Step form next) : padded.Step (scheme.weave form) (scheme.weave next) := by
  cases step with
  | @expand production member before after =>
      have own := related.own_production member (declared production.lhs (by simp))
      have kind := related.user_kinds _ (related.heads_declared production own)
      rw [weave_append, weave_append, weave_append, weave_nonterminal kind]
      exact .expand (related.woven_mem own) (scheme.weave before) (scheme.weave after)

theorem woven_derivation {form final : List Symbol} (declared : scheme.Declared form)
    (derivation : plain.Derives form final) :
    padded.Derives (scheme.weave form) (scheme.weave final) := by
  induction derivation with
  | refl => exact .refl
  | tail earlier last ih =>
      exact .tail ih (related.woven_step (related.declared_after_derivation declared earlier) last)

/-- The rows of a padded form are derived by the implicit rules woven into the form. -/
theorem woven_derives_padded {form final : List Symbol} (whole : Padded scheme.Gap form final) :
    padded.Derives (scheme.weave form) final := by
  induction whole with
  | nil => exact .refl
  | @cons symbol row form final fits _ ih =>
      cases fits with
      | token terminal fits =>
          rw [weave_terminal terminal]
          exact Grammar.Derives.behind ((related.skip_derives_row fits).append ih) [symbol]
      | user member =>
          rw [weave_nonterminal (related.user_kinds symbol member)]
          exact ih.behind [symbol]

end Forwards

section Backwards

theorem padded_weave {form : List Symbol} (declared : scheme.Declared form) :
    Padded scheme.Gap form (scheme.weave form) := by
  induction form with
  | nil => exact .nil
  | cons symbol form ih =>
      have rest := ih fun other member => declared other (by simp [member])
      rcases declared symbol (by simp) with terminal | user
      · rw [weave_terminal terminal]
        exact .cons (.token terminal .more) rest
      · rw [weave_nonterminal (related.user_kinds symbol user)]
        exact .cons (.user user) rest

theorem padded_after_step {form final next : List Symbol} (whole : Padded scheme.Gap form final)
    (step : padded.Step final next) :
    ∃ later, plain.Derives form later ∧ Padded scheme.Gap later next := by
  cases step with
  | @expand production member before after =>
      have kind := related.padded_whole.nonterminal_kind
        (related.padded_whole.heads_known production member)
      cases whole.place rfl with
      | @own left right before row after front fits back =>
          cases fits with
          | token terminal _ =>
              rw [kind] at terminal
              cases terminal
          | user user =>
              obtain ⟨own, among, rfl⟩ := related.user_production member user
              have step : plain.Step (left ++ own.lhs :: right) (left ++ own.rhs ++ right) :=
                .expand (List.mem_append_left _ among) left right
              refine ⟨_, .single step, ?_⟩
              have body := related.padded_weave (related.bodies_declared own among)
              exact (front.append body).append back
      | @inRow owner left right before first last after front fits back =>
          rcases fits.of_filled (by simp) with ⟨terminal, fits⟩
          have changed := related.row_after_step fits (.expand member first last)
          refine ⟨_, .refl, ?_⟩
          have shape := front.append (Padded.cons (.token terminal changed) back)
          simpa using shape

theorem padded_after_derivation {form start final : List Symbol}
    (whole : Padded scheme.Gap form start) (derivation : padded.Derives start final) :
    ∃ later, plain.Derives form later ∧ Padded scheme.Gap later final := by
  induction derivation with
  | refl => exact ⟨form, .refl, whole⟩
  | tail _ last ih =>
      obtain ⟨middle, earlier, between⟩ := ih
      obtain ⟨later, step, reached⟩ := related.padded_after_step between last
      exact ⟨later, earlier.trans step, reached⟩

end Backwards

theorem derives_iff {user : Symbol} (member : user ∈ scheme.users) {final : List Symbol} :
    padded.Derives [user] final ↔
      ∃ form, plain.Derives [user] form ∧ Padded scheme.Gap form final := by
  have declared : scheme.Declared [user] := by
    intro symbol among
    rw [List.mem_singleton.1 among]
    exact Or.inr member
  constructor
  · exact related.padded_after_derivation (.singleton (.user member))
  · intro derived
    rcases derived with ⟨form, derivation, whole⟩
    have woven := related.woven_derivation declared derivation
    rw [weave_nonterminal (related.user_kinds user member)] at woven
    exact woven.trans (related.woven_derives_padded whole)

theorem plain_augmented_derives_iff {final : List Symbol} :
    plain.Derives [plain.augmentedStart] final ↔ final = [plain.augmentedStart] ∨
      ∃ form, plain.Derives [plain.start] form ∧ final = form ++ [plain.eof] := by
  have applied : plain.Derives [plain.augmentedStart] ([plain.start] ++ [plain.eof]) := by
    have applied : plain.Derives [plain.startProduction.lhs] plain.startProduction.rhs :=
      .of_production (by simp [Grammar.productions])
    rwa [related.plain_start] at applied
  constructor
  · intro derivation
    rcases derivation.of_symbol with same | ⟨production, member, head, later⟩
    · exact Or.inl same
    · right
      rw [related.plain_start_production member head, related.plain_start] at later
      have later : plain.Derives ([plain.start] ++ [plain.eof]) final := later
      obtain ⟨form, last, rfl, body, ending⟩ := later.of_append
      obtain rfl := ending.of_terminal related.plain_whole related.eof_kind
      exact ⟨form, body, rfl⟩
  · intro derived
    rcases derived with rfl | ⟨form, body, rfl⟩
    · exact .refl
    · exact applied.trans (body.ahead _)

/-- Besides itself the augmented start derives a row, a padded form of what the start symbol
derives, and the end of the input. -/
theorem padded_augmented_derives_iff {final : List Symbol} :
    padded.Derives [padded.augmentedStart] final ↔ final = [padded.augmentedStart] ∨
      ∃ row form body, scheme.Row row ∧ plain.Derives [plain.start] form ∧
        Padded scheme.Gap form body ∧ final = row ++ (body ++ [plain.eof]) := by
  have applied : padded.Derives [padded.augmentedStart]
      ([scheme.skip] ++ ([plain.start] ++ [plain.eof])) := by
    have applied : padded.Derives [padded.startProduction.lhs] padded.startProduction.rhs :=
      .of_production (by simp [Grammar.productions])
    rwa [related.padded_start] at applied
  constructor
  · intro derivation
    rcases derivation.of_symbol with same | ⟨production, member, head, later⟩
    · exact Or.inl same
    · right
      rw [related.padded_start_production member head, related.padded_start] at later
      have later : padded.Derives ([scheme.skip] ++ ([plain.start] ++ [plain.eof])) final := later
      obtain ⟨row, rest, rfl, front, later⟩ := later.of_append
      obtain ⟨body, last, rfl, inner, ending⟩ := later.of_append
      obtain rfl := ending.of_terminal related.padded_whole related.eof_kind
      obtain ⟨form, derived, whole⟩ := (related.derives_iff related.start_user).1 inner
      exact ⟨row, form, body, related.row_after_derivation .more front, derived, whole, rfl⟩
  · intro derived
    rcases derived with rfl | ⟨row, form, body, fits, derivation, whole, rfl⟩
    · exact .refl
    · have front := related.skip_derives_row fits
      have inner := (related.derives_iff related.start_user).2 ⟨form, derivation, whole⟩
      exact applied.trans (front.append (inner.ahead _))

end Relates

end Scheme

end GrammarKit
