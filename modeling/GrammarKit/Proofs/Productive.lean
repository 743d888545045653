import GrammarKit.Analysis.Productive
import GrammarKit.Proofs.Derivations
import GrammarKit.Proofs.Saturation
import GrammarKit.Proofs.Tables

/-!
# The productive set is exact

The set that grows from nothing holds the nonterminals that derive some finite sequence of
terminals, which are the roots of complete trees. A production is productive with respect to the set
exactly when each symbol of its right-hand side derives such a sequence.
-/

namespace GrammarKit

set_option autoImplicit false

namespace Grammar

variable {grammar : Grammar}

theorem derives_tokens_of_terminal {symbol : Symbol} (terminal : symbol.isTerminal) :
    grammar.DerivesTokens symbol := by
  refine ⟨[symbol], ?_, .refl⟩
  intro token member
  obtain rfl := List.mem_singleton.1 member
  exact terminal

theorem derives_tokens_of_each {form : List Symbol}
    (each : ∀ symbol ∈ form, grammar.DerivesTokens symbol) :
    ∃ tokens : List Symbol, (∀ token ∈ tokens, token.isTerminal) ∧
      grammar.Derives form tokens := by
  induction form with
  | nil => exact ⟨[], by simp, .refl⟩
  | cons symbol rest ih =>
      obtain ⟨first, firstTerminals, head⟩ := each symbol (by simp)
      obtain ⟨others, otherTerminals, tail⟩ :=
        ih (fun other member => each other (by simp [member]))
      refine ⟨first ++ others, ?_, Derives.append head tail⟩
      intro token member
      rcases List.mem_append.1 member with among | among
      · exact firstTerminals token among
      · exact otherTerminals token among

theorem derives_tokens_of_production {production : Production}
    (member : production ∈ grammar.productions)
    (each : ∀ symbol ∈ production.rhs, grammar.DerivesTokens symbol) :
    grammar.DerivesTokens production.lhs := by
  obtain ⟨tokens, terminals, derivation⟩ := derives_tokens_of_each each
  exact ⟨tokens, terminals, (Derives.of_production member).trans derivation⟩

end Grammar

namespace Productive

variable {grammar : Grammar} {known : IndexSet}

def Sound (grammar : Grammar) (known : IndexSet) : Prop :=
  ∀ index ∈ known, ∃ symbol ∈ grammar.nonterminals,
    symbol.index = index ∧ grammar.DerivesTokens symbol

theorem Sound.symbol (whole : grammar.WellFormed) (sound : Sound grammar known) {symbol : Symbol}
    (member : symbol ∈ grammar.nonterminals) (found : symbol.index ∈ known) :
    grammar.DerivesTokens symbol := by
  obtain ⟨other, otherMember, same, derives⟩ := sound symbol.index found
  obtain rfl := whole.eq_of_same_index otherMember member same
  exact derives

theorem Sound.body (whole : grammar.WellFormed) (sound : Sound grammar known)
    {production : Production} (member : production ∈ grammar.productions)
    (productive : production.isProductive known) :
    ∀ symbol ∈ production.rhs, grammar.DerivesTokens symbol := by
  intro symbol occurs
  have allowed := List.all_eq_true.1 productive symbol occurs
  by_cases terminal : symbol.isTerminal
  · exact Grammar.derives_tokens_of_terminal terminal
  · have nonterminal := whole.nonterminal_known (whole.body_known member symbol occurs)
      (by simpa using terminal)
    exact sound.symbol whole nonterminal (by simpa [terminal] using allowed)

theorem Sound.after_learn (whole : grammar.WellFormed) (sound : Sound grammar known)
    {production : Production} (member : production ∈ grammar.productions) :
    Sound grammar (learn known production) := by
  unfold learn
  split
  · next productive =>
      intro index found
      rcases SortedSet.mem_insert.1 found with rfl | earlier
      · have body := sound.body whole member productive
        exact ⟨production.lhs, whole.heads_known production member, rfl,
          Grammar.derives_tokens_of_production member body⟩
      · exact sound index earlier
  · exact sound

/-- Only heads of productions enter the set, which bounds the passes. -/
def HeadsOnly (grammar : Grammar) (known : IndexSet) : Prop :=
  ∀ index ∈ known, index ∈ grammar.productions.map (·.lhs.index)

theorem HeadsOnly.after_learn (heads : HeadsOnly grammar known) {production : Production}
    (member : production ∈ grammar.productions) : HeadsOnly grammar (learn known production) := by
  unfold learn
  split
  · intro index found
    rcases SortedSet.mem_insert.1 found with rfl | earlier
    · exact List.mem_map_of_mem member
    · exact heads index earlier
  · exact heads

theorem HeadsOnly.size_le (heads : HeadsOnly grammar known) :
    known.size ≤ grammar.productions.length := by
  have covered := SortedSet.size_le_of_covered heads
  rwa [List.length_map] at covered

theorem learn_grows (known : IndexSet) (production : Production) :
    learn known production = known ∨ known.size < (learn known production).size := by
  unfold learn
  split
  · exact SortedSet.eq_or_size_lt (fun index found => SortedSet.mem_insert.2 (Or.inr found))
  · exact Or.inl rfl

theorem settled_sound (whole : grammar.WellFormed) : Sound grammar grammar.productive := by
  have initially : Sound grammar ∅ :=
    fun index found => absurd found (SortedSet.not_mem_empty index)
  apply settled_fold_keeps _ _ initially
  intro production member known sound
  exact sound.after_learn whole member

theorem settled_closed (grammar : Grammar) {production : Production}
    (member : production ∈ grammar.productions)
    (productive : production.isProductive grammar.productive) :
    production.lhs.index ∈ grammar.productive := by
  have initially : HeadsOnly grammar ∅ :=
    fun index found => absurd found (SortedSet.not_mem_empty index)
  have enough : grammar.productions.length <
      grammar.productions.length + 1 + SortedSet.size (∅ : IndexSet) := by omega
  have idle := settled_is_closed (fun _ among _ holds => HeadsOnly.after_learn holds among)
    (fun production _ known _ => learn_grows known production)
    (fun _ holds => HeadsOnly.size_le holds) initially enough production member
  change learn grammar.productive production = grammar.productive at idle
  unfold learn at idle
  rw [if_pos productive] at idle
  rw [← idle]
  exact SortedSet.mem_insert.2 (Or.inl rfl)

theorem mem_of_complete {tree : DerivationTree}
    (complete : DerivationTree.Complete grammar tree) :
    tree.root.isTerminal ∨ tree.root.index ∈ grammar.productive := by
  induction complete with
  | token terminal => exact Or.inl terminal
  | @expansion production children member nonterminal body _ ih =>
      right
      apply settled_closed grammar member
      apply List.all_eq_true.2
      intro symbol occurs
      rw [← body] at occurs
      obtain ⟨child, among, rfl⟩ := List.mem_map.1 occurs
      rcases ih child among with terminal | found
      · simp [terminal]
      · simp [found]

end Productive

namespace Grammar

variable {grammar : Grammar}

theorem mem_productive_iff (whole : grammar.WellFormed) {symbol : Symbol}
    (member : symbol ∈ grammar.nonterminals) :
    symbol.index ∈ grammar.productive ↔ grammar.DerivesTokens symbol := by
  constructor
  · exact (Productive.settled_sound whole).symbol whole member
  · intro derives
    obtain ⟨tree, complete, rfl⟩ := (DerivationTree.derives_tokens_iff whole).1 derives
    rcases Productive.mem_of_complete complete with terminal | found
    · rw [whole.nonterminal_kind member] at terminal
      cases terminal
    · exact found

theorem is_productive_iff (whole : grammar.WellFormed) {production : Production}
    (member : production ∈ grammar.productions) :
    production.isProductive grammar.productive ↔
      ∀ symbol ∈ production.rhs, grammar.DerivesTokens symbol := by
  constructor
  · exact (Productive.settled_sound whole).body whole member
  · intro each
    apply List.all_eq_true.2
    intro symbol occurs
    by_cases terminal : symbol.isTerminal
    · simp [terminal]
    · have nonterminal := whole.nonterminal_known (whole.body_known member symbol occurs)
        (by simpa using terminal)
      simp [(mem_productive_iff whole nonterminal).2 (each symbol occurs)]

end Grammar

end GrammarKit
