import GrammarKit.Proofs.Build.Names
import GrammarKit.Proofs.Renaming.Analyses

/-!
# Declarations under other names

Of two names only their equality is ever asked. Where names are told apart as before, what looks up
a declared name finds the same symbol, and what finds none fails for the same reason. Other names
stand in the messages then, so that two failures are compared by kind.
-/

namespace GrammarKit

set_option autoImplicit false

/-- Both outcomes are answers that are related, or rejections of one kind, or the same fault. -/
inductive SameOutcome {α β : Type} (related : α → β → Prop) :
    Except Fault α → Except Fault β → Prop where
  | answered {value : α} {other : β} (holds : related value other) :
      SameOutcome related (.ok value) (.ok other)
  | rejected {error other : DeclarationError} (kind : other.kind = error.kind) :
      SameOutcome related (.error (.rejected error)) (.error (.rejected other))
  | failed (fault : Fault) : SameOutcome related (.error fault) (.error fault)

namespace SameOutcome

variable {α β γ δ : Type} {related : α → β → Prop} {outcome : Except Fault α}
  {other : Except Fault β}

theorem imp {weaker : α → β → Prop} (same : SameOutcome related outcome other)
    (implied : ∀ value result, outcome = .ok value → other = .ok result → related value result →
      weaker value result) : SameOutcome weaker outcome other := by
  cases same with
  | answered holds => exact .answered (implied _ _ rfl rfl holds)
  | rejected kind => exact .rejected kind
  | failed fault => exact .failed fault

theorem bind {next : α → Except Fault γ} {otherNext : β → Except Fault δ}
    {later : γ → δ → Prop} (same : SameOutcome related outcome other)
    (continued : ∀ value result, outcome = .ok value → related value result →
      SameOutcome later (next value) (otherNext result)) :
    SameOutcome later (outcome >>= next) (other >>= otherNext) := by
  cases same with
  | answered holds => exact continued _ _ rfl holds
  | rejected kind => exact .rejected kind
  | failed fault => exact .failed fault

theorem of_require {change : α → β} {found : Option α} {error renamed : DeclarationError}
    (kind : renamed.kind = error.kind) :
    SameOutcome (fun value result => result = change value) (require found (.rejected error))
      (require (found.map change) (.rejected renamed)) := by
  cases found with
  | none => exact .rejected kind
  | some value => exact .answered rfl

theorem map_m {ι κ : Type} {ask : ι → Except Fault α} {again : κ → Except Fault β}
    {rename : ι → κ} {change : α → β} {items : List ι}
    (each : ∀ item ∈ items, SameOutcome (fun value result => result = change value) (ask item)
      (again (rename item))) :
    SameOutcome (fun values results => results = values.map change) (items.mapM ask)
      ((items.map rename).mapM again) := by
  induction items with
  | nil => exact .answered rfl
  | cons item rest ih =>
      have later := ih fun other member => each other (by simp [member])
      rw [List.map_cons, List.mapM_cons, List.mapM_cons]
      refine (each item (by simp)).bind ?_
      intro first changed _ head
      refine later.bind ?_
      intro others changedOthers _ tail
      exact .answered (by rw [head, tail, List.map_cons])

theorem for_m {ι κ : Type} {check : ι → Except Fault Unit} {again : κ → Except Fault Unit}
    {rename : ι → κ} {items : List ι}
    (each : ∀ item ∈ items, SameOutcome (fun _ _ => True) (check item) (again (rename item))) :
    SameOutcome (fun _ _ => True) (items.forM check) ((items.map rename).forM again) := by
  induction items with
  | nil => exact .answered trivial
  | cons item rest ih =>
      have later := ih fun other member => each other (by simp [member])
      exact (each item (by simp)).bind fun _ _ _ _ => later

end SameOutcome

def Reference.renamed (rename : String → String) : Reference → Reference
  | .rule name => .rule (rename name)
  | .token name => .token (rename name)
  | .stray text => .stray text

def Alternative.renamed (rename : String → String) (alternative : Alternative) : Alternative :=
  ⟨alternative.references.map (·.renamed rename), alternative.precedence.map rename⟩

def RuleDeclaration.renamed (rename : String → String) (rule : RuleDeclaration) : RuleDeclaration :=
  ⟨rename rule.name, rule.alternatives.map (·.renamed rename)⟩

/-- The same declarations under other names. The texts for error messages are no names. -/
def Declarations.renamed (rename : String → String) (declarations : Declarations) :
    Declarations where
  rules := declarations.rules.map (·.renamed rename)
  tokens := declarations.tokens.map rename
  precedenceLines := declarations.precedenceLines.map fun line =>
    ⟨line.associativity, line.tokens.map rename⟩
  starts := declarations.starts.map rename
  implicitTokens := declarations.implicitTokens.map (List.map rename)
  errorTexts := declarations.errorTexts.rekeyed rename

section Names

variable {rename : String → String} (injective : Function.Injective rename)

include injective

theorem mem_renamed {names : List String} {name : String} :
    rename name ∈ names.map rename ↔ name ∈ names := List.mem_map_of_injective injective

theorem repeated_renamed (seen names : List String) :
    repeated? (seen.map rename) (names.map rename) = (repeated? seen names).map rename := by
  induction names generalizing seen with
  | nil => rfl
  | cons name rest ih =>
      rw [List.map_cons, repeated?, repeated?]
      by_cases known : name ∈ seen
      · rw [if_pos ((mem_renamed injective).2 known), if_pos known]
        rfl
      · rw [if_neg (mt (mem_renamed injective).1 known), if_neg known]
        exact ih (name :: seen)

theorem distinct_renamed (names : List String) :
    distinct (names.map rename) = (distinct names).map rename :=
  erase_dups_map fun _ _ _ _ same => injective same

end Names

section Symbols

variable {naming : Naming}

/-- The symbol goes by its own name, as far as names that were declared have changed. -/
def Symbol.NamedBy (naming : Naming) (symbol : Symbol) : Prop :=
  naming.symbol symbol = naming.declared symbol.name

/-- Every symbol by its own name. -/
def Naming.byName (rename : String → String) : Naming where
  symbol symbol := rename symbol.name
  declared := rename

theorem Symbol.NamedBy.renamed_by_name {symbol : Symbol} (named : symbol.NamedBy naming) :
    symbol.renamed (.byName naming.declared) = symbol.renamed naming := by
  unfold Symbol.renamed
  rw [named]
  rfl

theorem renamed_by_name {symbols : List Symbol}
    (named : ∀ symbol ∈ symbols, symbol.NamedBy naming) :
    symbols.map (·.renamed (.byName naming.declared)) = symbols.map (·.renamed naming) :=
  List.map_congr_left fun symbol member => (named symbol member).renamed_by_name

theorem numbered_symbols_renamed (rename : String → String) (kind : SymbolKind)
    (names : List String) :
    numberedSymbols kind (names.map rename) =
      (numberedSymbols kind names).map (·.renamed (.byName rename)) := by
  simp [numberedSymbols, List.zipIdx_map, Function.comp_def, Symbol.renamed, Naming.byName]

theorem renamed_injective (injective : Function.Injective naming.declared) {left right : Symbol}
    (leftNamed : left.NamedBy naming) (rightNamed : right.NamedBy naming)
    (same : left.renamed naming = right.renamed naming) : left = right := by
  cases left
  cases right
  have name := congrArg Symbol.name same
  change naming.symbol _ = naming.symbol _ at name
  rw [leftNamed, rightNamed] at name
  rw [Symbol.mk.injEq]
  exact ⟨congrArg Symbol.kind same, congrArg Symbol.index same, injective name⟩

/-- Looked up under the new name, the symbol is found that bears it, or else a rejection of one kind
follows. -/
theorem require_renamed (injective : Function.Injective naming.declared) {symbols : List Symbol}
    (named : ∀ symbol ∈ symbols, symbol.NamedBy naming) (name : String)
    {error other : DeclarationError} (kind : other.kind = error.kind) :
    SameOutcome (fun symbol result => result = symbol.renamed naming)
      (require (symbols.find? fun symbol => symbol.name = name) (.rejected error))
      (require ((symbols.map (·.renamed naming)).find? fun symbol =>
        symbol.name = naming.declared name) (.rejected other)) := by
  have found : (symbols.map (·.renamed naming)).find? (fun symbol =>
        symbol.name = naming.declared name) =
      (symbols.find? fun symbol => symbol.name = name).map (·.renamed naming) := by
    rw [List.find?_map]
    congr 1
    apply List.find?_congr
    intro symbol member
    change decide (naming.symbol symbol = naming.declared name) = decide (symbol.name = name)
    rw [named symbol member, decide_eq_decide]
    exact injective.eq_iff
  rw [found]
  exact .of_require kind

end Symbols

section Clauses

variable {naming : Naming}

def Clause.renamed (naming : Naming) (clause : Clause) : Clause :=
  ⟨clause.lhs.renamed naming, clause.rhs.map (·.renamed naming),
    clause.precedence.map naming.declared⟩

theorem numbered_productions_renamed (clauses : List Clause) :
    numberedProductions (clauses.map (·.renamed naming)) =
      (numberedProductions clauses).map (·.renamed naming) := by
  simp [numberedProductions, List.zipIdx_map, Clause.renamed, Production.renamed,
    Function.comp_def]

theorem Declarations.implicit_clauses_renamed (implicitRule : Option Symbol)
    (tokens : List Symbol) :
    implicitClauses (implicitRule.map (·.renamed naming)) (tokens.map (·.renamed naming)) =
      (implicitClauses implicitRule tokens).map (·.renamed naming) := by
  cases implicitRule with
  | none => rfl
  | some rule => simp [implicitClauses, Clause.renamed, Function.comp_def]

namespace Scope

def renamed (naming : Naming) (scope : Scope) : Scope where
  rules := scope.rules.map (·.renamed naming)
  tokens := scope.tokens.map (·.renamed naming)
  implicitRule := scope.implicitRule.map (·.renamed naming)
  precedences := scope.precedences.rekeyed naming.declared

/-- Whatever an alternative may mention goes by its own name, and names are told apart. -/
structure NamedBy (naming : Naming) (scope : Scope) : Prop where
  injective : Function.Injective naming.declared
  rules : ∀ symbol ∈ scope.rules, symbol.NamedBy naming
  tokens : ∀ symbol ∈ scope.tokens, symbol.NamedBy naming

variable {scope : Scope} (named : scope.NamedBy naming)

include named

theorem require_token_renamed (name : String) {error other : DeclarationError}
    (kind : other.kind = error.kind) :
    SameOutcome (fun token result => result = token.renamed naming)
      (require (scope.token? name) (.rejected error))
      (require ((scope.renamed naming).token? (naming.declared name)) (.rejected other)) :=
  require_renamed named.injective named.tokens name kind

theorem resolve_renamed (user other : String) (reference : Reference) :
    SameOutcome (fun symbols results => results = symbols.map (·.renamed naming))
      (scope.resolve user reference)
      ((scope.renamed naming).resolve other (reference.renamed naming.declared)) := by
  cases reference with
  | rule name =>
      change SameOutcome _ (require (scope.rule? name) _ >>= _)
        (require ((scope.renamed naming).rule? (naming.declared name)) _ >>= _)
      refine (require_renamed named.injective named.rules name ?_).bind ?_
      · rfl
      · rintro symbol _ _ rfl
        exact .answered rfl
  | token name =>
      change SameOutcome _ (require (scope.token? name) _ >>= _)
        (require ((scope.renamed naming).token? (naming.declared name)) _ >>= _)
      refine (require_token_renamed named name ?_).bind ?_
      · rfl
      · rintro symbol _ _ rfl
        exact .answered (by simp [renamed, Option.toList_map])
  | stray text => exact .failed _

theorem check_precedence_renamed (precedence : Option String) :
    SameOutcome (fun _ _ => True) (scope.checkPrecedence precedence)
      ((scope.renamed naming).checkPrecedence (precedence.map naming.declared)) := by
  cases precedence with
  | none => exact .answered trivial
  | some token =>
      have same : (scope.renamed naming).precedences.contains (naming.declared token) =
          scope.precedences.contains token := by
        unfold Register.contains
        exact congrArg Option.isSome
          (Register.find_rekeyed fun _ _ _ _ equal => named.injective equal)
      change SameOutcome _ (if scope.precedences.contains token then _ else _)
        (if (scope.renamed naming).precedences.contains (naming.declared token) then _ else _)
      rw [same]
      split
      · exact .answered trivial
      · exact .rejected rfl

theorem clause_renamed (lhs : Symbol) (alternative : Alternative) :
    SameOutcome (fun clause result => result = clause.renamed naming)
      (scope.clause lhs alternative)
      ((scope.renamed naming).clause (lhs.renamed naming)
        (alternative.renamed naming.declared)) := by
  refine (SameOutcome.map_m fun reference _ => resolve_renamed named _ _ reference).bind ?_
  rintro symbols _ _ rfl
  refine (check_precedence_renamed named _).bind ?_
  rintro _ _ _ _
  refine .answered ?_
  simp [Clause.renamed, Alternative.renamed, List.map_flatten]

end Scope

end Clauses

end GrammarKit
