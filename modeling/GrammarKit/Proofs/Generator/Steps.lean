import GrammarKit.Proofs.Generator.Weights

/-!
# One expansion

While there is slack, that is budget beyond the reserve of the nodes that wait, an expansion asks
the picker to choose among the candidates, and some slack or none is left afterwards. Without slack
there are no candidates, and the alternative with the fewest expansions is forced. An expansion
fails with the picker that it asks, or at candidates whose weights have no sum, and in no other way.
-/

namespace GrammarKit

set_option autoImplicit false

open DerivationTree

section Monad

variable {σ α β : Type} {start final : Progress σ} {first : Growth σ α} {next : α → Growth σ β}

theorem growth_bind_run :
    (first >>= next).run start =
      match (first.run start).1 with
      | .ok value => (next value).run (first.run start).2
      | .error fault => (.error fault, (first.run start).2) := by
  change (ExceptT.bindCont next (first.run start).1 : StateM (Progress σ) (Except Fault β))
    (first.run start).2 = _
  cases (first.run start).1 <;> rfl

theorem growth_bind_of_ok {value : α} {middle : Progress σ}
    (succeeded : first.run start = (.ok value, middle)) :
    (first >>= next).run start = (next value).run middle := by
  rw [growth_bind_run, succeeded]

theorem growth_bind_of_error {fault : Fault} {middle : Progress σ}
    (failed : first.run start = (.error fault, middle)) :
    (first >>= next).run start = (.error fault, middle) := by
  rw [growth_bind_run, failed]

theorem growth_bind_eq_ok_iff {result : β} :
    (first >>= next).run start = (.ok result, final) ↔
      ∃ value middle, first.run start = (.ok value, middle) ∧
        (next value).run middle = (.ok result, final) := by
  constructor
  · intro whole
    rcases outcome : first.run start with ⟨fault | value, middle⟩
    · rw [growth_bind_of_error outcome] at whole
      cases whole
    · exact ⟨value, middle, rfl, (growth_bind_of_ok outcome).symm.trans whole⟩
  · intro parts
    rcases parts with ⟨value, middle, before, after⟩
    rw [growth_bind_of_ok before, after]

theorem growth_get_run : (get : Growth σ (Progress σ)).run start = (.ok start, start) := rfl

theorem growth_modify_run (change : Progress σ → Progress σ) :
    (modify change : Growth σ PUnit).run start = (.ok ⟨⟩, change start) := rfl

theorem growth_lift_run (outcome : Except Fault α) :
    (liftM outcome : Growth σ α).run start = (outcome, start) := rfl

end Monad

namespace Progress

variable {σ : Type}

/-- What is left of the budget once the nodes that wait have their reserve. -/
def slack (progress : Progress σ) : Int := progress.remaining - progress.reserved

/-- The reserve of a node is free once it is its turn. -/
def eased (progress : Progress σ) (least : Nat) : Progress σ :=
  { progress with reserved := progress.reserved - least }

/-- The accounts after an expansion. The reserve of the node makes room for that of its children. -/
def charged (progress : Progress σ) (least pending : Nat) : Progress σ :=
  { progress with
    remaining := progress.remaining - 1
    reserved := progress.reserved - least + pending }

/-- What the picker leaves behind. -/
def drawn (progress : Progress σ) (source : σ) (draw : Draw) : Progress σ :=
  { progress with source := source, draws := draw :: progress.draws }

theorem slack_spent {start later : Progress σ} {least pending : Nat}
    (remaining : later.remaining = start.remaining - 1)
    (reserved : later.reserved = start.reserved - least + pending) :
    later.slack = start.slack + least - 1 - pending := by
  unfold slack
  omega

theorem slack_charged (progress : Progress σ) (least pending : Nat) :
    (progress.charged least pending).slack = progress.slack + least - 1 - pending :=
  slack_spent rfl rfl

theorem slack_drawn (progress : Progress σ) (source : σ) (draw : Draw) :
    (progress.drawn source draw).slack = progress.slack := rfl

/-- What a node may use once its own reserve is free. -/
theorem allowance_eq (progress : Progress σ) (least : Nat) :
    progress.remaining - (progress.reserved - least) = progress.slack + least := by
  unfold slack
  omega

end Progress

namespace Generator

variable {σ : Type} {generator : Generator} {picker : Picker σ} {symbol : Symbol}
  {production : Production} {start later final : Progress σ} {least : Nat}

section Expanding

/-- What goes into the picker for some candidates. -/
def drawOf (candidates : List Production) (weights : Option (List Weight)) : Draw :=
  ⟨candidates.map (·.index), weights⟩

/-- The candidates at a node that needs `least` expansions. -/
def offered (generator : Generator) (symbol : Symbol) (slack : Int) (least : Nat) :
    List Production :=
  generator.candidates symbol (slack + least)

/-- The candidates when it is the turn of a node, whose own reserve is free then: all alternatives
that fit into what remains without the reserve of the others. -/
def candidatesAt (generator : Generator) (symbol : Symbol) (progress : Progress σ) :
    List Production :=
  generator.candidates symbol
    (progress.remaining - (progress.reserved - ((generator.need symbol).getD 0 : Nat)))

theorem candidates_at_eq (needed : generator.need symbol = some least) :
    generator.candidatesAt symbol start = generator.offered symbol start.slack least := by
  rw [candidatesAt, needed, Option.getD_some, start.allowance_eq, offered]

theorem draw_run (start : Progress σ) {candidates : List Production}
    (nonempty : 0 < candidates.length)
    {weights : Option (List Weight)} (weighed : generator.weightsFor candidates = .ok weights)
    {choice : Except Fault (Fin candidates.length)} {source : σ}
    (picked : picker.pick candidates.length nonempty weights start.source = (choice, source)) :
    (generator.draw picker candidates nonempty).run start =
      (choice.map candidates.get,
        start.drawn source (drawOf candidates weights)) := by
  unfold draw
  rw [weighed, growth_bind_of_ok (growth_lift_run _), growth_bind_of_ok growth_get_run, picked]
  cases choice <;> rfl

theorem draw_run_of_fault {candidates : List Production} (nonempty : 0 < candidates.length)
    {fault : Fault} (unweighed : generator.weightsFor candidates = .error fault) :
    (generator.draw picker candidates nonempty).run start = (.error fault, start) := by
  unfold draw
  rw [unweighed]
  exact growth_bind_of_error (growth_lift_run _)

theorem choose_of_nonempty {allowance : Int}
    (nonempty : 0 < (generator.candidates symbol allowance).length) :
    generator.choose picker symbol allowance =
      generator.draw picker (generator.candidates symbol allowance) nonempty := dif_pos nonempty

theorem choose_of_empty {allowance : Int}
    (empty : ¬ 0 < (generator.candidates symbol allowance).length)
    (forced : best? generator.fewer (generator.alternatives symbol) = some production) :
    (generator.choose picker symbol allowance).run start = (.ok production, start) := by
  unfold candidates at empty
  unfold choose
  rw [dif_neg empty, forced]
  rfl

theorem expand_run (needed : generator.need symbol = some least) :
    (generator.expand picker symbol).run start =
      match (generator.choose picker symbol (start.slack + least)).run (start.eased least) with
      | (.ok production, chosen) =>
          (.ok production, { chosen with
            remaining := chosen.remaining - 1
            reserved := chosen.reserved + ((generator.pending production).getD 0 : Nat) })
      | (.error fault, chosen) => (.error fault, chosen) := by
  unfold expand
  rw [needed, growth_bind_of_ok (growth_modify_run _), growth_bind_of_ok growth_get_run]
  simp only [Option.getD_some, start.allowance_eq]
  change _ = match (generator.choose picker symbol (start.slack + least)).run
    { start with reserved := start.reserved - least } with
    | (.ok production, chosen) => _
    | (.error fault, chosen) => _
  rcases outcome : (generator.choose picker symbol (start.slack + least)).run
    { start with reserved := start.reserved - least } with ⟨fault | production, chosen⟩
  · rw [growth_bind_of_error outcome]
  · rw [growth_bind_of_ok outcome]
    rfl

theorem expand_of_choice (needed : generator.need symbol = some least) {chosen : Progress σ}
    (choice : (generator.choose picker symbol (start.slack + least)).run (start.eased least) =
      (.ok production, chosen))
    {pending : Nat} (waiting : generator.pending production = some pending) :
    (generator.expand picker symbol).run start =
      (.ok production, { chosen with
        remaining := chosen.remaining - 1
        reserved := chosen.reserved + pending }) := by
  rw [expand_run needed, choice]
  simp only [waiting, Option.getD_some]

theorem expand_of_fault (needed : generator.need symbol = some least) {fault : Fault}
    {chosen : Progress σ}
    (choice : (generator.choose picker symbol (start.slack + least)).run (start.eased least) =
      (.error fault, chosen)) :
    (generator.expand picker symbol).run start = (.error fault, chosen) := by
  rw [expand_run needed, choice]

theorem expand_undrawn (picker : Picker σ) (needed : generator.need symbol = some least)
    (nonempty : 0 < (generator.offered symbol start.slack least).length) {fault : Fault}
    {chosen : Progress σ}
    (undrawn : (generator.draw picker (generator.offered symbol start.slack least) nonempty).run
      (start.eased least) = (.error fault, chosen)) :
    (generator.expand picker symbol).run start = (.error fault, chosen) := by
  apply expand_of_fault needed
  rw [choose_of_nonempty nonempty]
  exact undrawn

/-- The picker is asked once for one of the candidates at a node, and this comes of it. -/
def Asked (generator : Generator) (picker : Picker σ) (symbol : Symbol) (start : Progress σ)
    (answer : Except Fault Production) (final : Progress σ) : Prop :=
  ∃ nonempty weights choice,
    generator.weightsFor (generator.candidatesAt symbol start) = .ok weights ∧
      picker.pick (generator.candidatesAt symbol start).length nonempty weights start.source =
        (choice, final.source) ∧
      choice.map (generator.candidatesAt symbol start).get = answer ∧
      final.draws = drawOf (generator.candidatesAt symbol start) weights :: start.draws

/-- There are candidates at a node, but their weights have no sum, and the picker is not asked. -/
structure Overweight (generator : Generator) (symbol : Symbol) (start : Progress σ) (fault : Fault)
    (final : Progress σ) : Prop where
  nonempty : generator.candidatesAt symbol start ≠ []
  unsummed : generator.Unsummed (generator.candidatesAt symbol start)
  large : fault = .numberTooLarge
  source : final.source = start.source
  draws : final.draws = start.draws

/-- How a node comes by its production: from the picker, or because nothing fits any more. -/
def Taken (generator : Generator) (picker : Picker σ) (symbol : Symbol) (least : Nat)
    (start : Progress σ) (production : Production) (pending : Nat) (later : Progress σ) : Prop :=
  (0 ≤ start.slack ∧ (pending : Int) + 1 ≤ start.slack + least ∧
    ∃ nonempty weights place source,
      picker.pick (generator.offered symbol start.slack least).length nonempty weights
        start.source = (.ok place, source) ∧
      generator.weightsFor (generator.offered symbol start.slack least) = .ok weights ∧
      (generator.offered symbol start.slack least)[place] = production ∧
      later = (start.drawn source
        (drawOf (generator.offered symbol start.slack least) weights)).charged least pending) ∨
  (start.slack < 0 ∧ pending + 1 = least ∧ later = start.charged least pending)

variable (prepared : generator.Prepared) (member : symbol ∈ generator.grammar.nonterminals)
  (needed : generator.need symbol = some least)

include prepared member needed

theorem Prepared.offered_nonempty {slack : Int} (enough : 0 ≤ slack) :
    0 < (generator.offered symbol slack least).length := by
  apply (prepared.candidates_nonempty_iff member needed).2
  omega

theorem Prepared.offered_pending {slack : Int}
    (among : production ∈ generator.offered symbol slack least) :
    production ∈ generator.alternatives symbol ∧
      ∃ pending, generator.pending production = some pending ∧ least ≤ pending + 1 ∧
        (pending : Int) + 1 ≤ slack + least := by
  obtain ⟨alternative, fitting⟩ := List.mem_filter.1 among
  obtain ⟨pending, waiting, low⟩ := prepared.alternative_pending member needed alternative
  exact ⟨alternative, pending, waiting, low, (fits_iff waiting).1 fitting⟩

theorem Prepared.expand_drawn (enough : 0 ≤ start.slack) {weights : Option (List Weight)}
    (weighed : generator.weightsFor (generator.offered symbol start.slack least) = .ok weights)
    {place : Fin (generator.offered symbol start.slack least).length} {source : σ}
    (picked : picker.pick _ (prepared.offered_nonempty member needed enough) weights start.source =
      (.ok place, source))
    {pending : Nat}
    (waiting : generator.pending (generator.offered symbol start.slack least)[place] =
      some pending) :
    (generator.expand picker symbol).run start =
      (.ok (generator.offered symbol start.slack least)[place],
        (start.drawn source (drawOf (generator.offered symbol start.slack least) weights)).charged
          least pending) := by
  have nonempty := prepared.offered_nonempty member needed enough
  have choice : (generator.choose picker symbol (start.slack + least)).run (start.eased least) =
      (.ok (generator.offered symbol start.slack least)[place], (start.eased least).drawn source
        (drawOf (generator.offered symbol start.slack least) weights)) := by
    rw [choose_of_nonempty nonempty]
    exact draw_run (start.eased least) nonempty weighed picked
  exact expand_of_choice needed choice waiting

/-- Without slack nothing fits, and the production is forced that needs the least. -/
theorem Prepared.expand_best (picker : Picker σ) (short : start.slack < 0)
    (found : best? generator.fewer (generator.alternatives symbol) = some production) :
    ∃ pending, production ∈ generator.alternatives symbol ∧
      generator.pending production = some pending ∧ pending + 1 = least ∧
      (generator.expand picker symbol).run start =
        (.ok production, start.charged least pending) := by
  obtain ⟨listed, pending, waiting, same⟩ := prepared.forced_pending member needed found
  have nothing : ¬ 0 < (generator.candidates symbol (start.slack + least)).length := by
    rw [prepared.candidates_nonempty_iff member needed]
    omega
  refine ⟨pending, listed, waiting, same, ?_⟩
  exact expand_of_choice needed (choose_of_empty nothing found) waiting

theorem Prepared.best_found :
    ∃ production, best? generator.fewer (generator.alternatives symbol) = some production := by
  obtain ⟨cheapest, alternative, _⟩ := prepared.least_alternative member needed
  exact Option.isSome_iff_exists.1 (best_of_nonempty (List.ne_nil_of_mem alternative))

theorem Prepared.expand_forced (picker : Picker σ) (short : start.slack < 0) :
    ∃ production pending, production ∈ generator.alternatives symbol ∧
      generator.pending production = some pending ∧ pending + 1 = least ∧
      (generator.expand picker symbol).run start =
        (.ok production, start.charged least pending) := by
  obtain ⟨forced, found⟩ := prepared.best_found member needed
  exact ⟨forced, prepared.expand_best member needed picker short found⟩

/-- With slack an expansion stops at weights without a sum, before it asks the picker, or at a fault
of the picker. Otherwise it takes the candidate that the picker points to. -/
theorem Prepared.expand_asked (picker : Picker σ) (enough : 0 ≤ start.slack) :
    (∃ fault, generator.weightsFor (generator.offered symbol start.slack least) = .error fault ∧
      (generator.expand picker symbol).run start = (.error fault, start.eased least)) ∨
    ∃ nonempty weights,
      generator.weightsFor (generator.offered symbol start.slack least) = .ok weights ∧
        ((∃ fault source,
          picker.pick (generator.offered symbol start.slack least).length nonempty weights
            start.source = (.error fault, source) ∧
          (generator.expand picker symbol).run start = (.error fault, (start.eased least).drawn
            source (drawOf (generator.offered symbol start.slack least) weights))) ∨
        ∃ place source pending,
          picker.pick (generator.offered symbol start.slack least).length nonempty weights
            start.source = (.ok place, source) ∧
          (generator.offered symbol start.slack least)[place] ∈ generator.alternatives symbol ∧
          generator.pending (generator.offered symbol start.slack least)[place] = some pending ∧
          (pending : Int) + 1 ≤ start.slack + least ∧
          (generator.expand picker symbol).run start =
            (.ok (generator.offered symbol start.slack least)[place], (start.drawn source
              (drawOf (generator.offered symbol start.slack least) weights)).charged
                least pending)) := by
  have nonempty := prepared.offered_nonempty member needed enough
  cases weighed : generator.weightsFor (generator.offered symbol start.slack least) with
  | error fault =>
      exact Or.inl ⟨fault, rfl,
        expand_undrawn picker needed nonempty (draw_run_of_fault nonempty weighed)⟩
  | ok weights =>
      refine Or.inr ⟨nonempty, weights, rfl, ?_⟩
      rcases picked : picker.pick _ nonempty weights start.source with ⟨fault | place, source⟩
      · exact Or.inl ⟨fault, source, rfl, expand_undrawn picker needed nonempty
          (draw_run (start.eased least) nonempty weighed picked)⟩
      · obtain ⟨listed, pending, waiting, _, fitting⟩ :=
          prepared.offered_pending member needed (List.getElem_mem place.isLt)
        exact Or.inr ⟨place, source, pending, rfl, listed, waiting, fitting,
          prepared.expand_drawn member needed enough weighed picked waiting⟩

/-- An expansion picks one of the alternatives that fit as long as there is slack, and from then on
it takes the one with the fewest expansions. -/
theorem Prepared.expand_cases
    (expanded : (generator.expand picker symbol).run start = (.ok production, later)) :
    production ∈ generator.alternatives symbol ∧
      ∃ pending, generator.pending production = some pending ∧
        Taken generator picker symbol least start production pending later := by
  by_cases enough : 0 ≤ start.slack
  · rcases prepared.expand_asked member needed picker enough with
      ⟨fault, _, failed⟩ | ⟨nonempty, weights, weighed, asked⟩
    · rw [expanded] at failed
      cases failed
    · rcases asked with ⟨fault, source, _, failed⟩ |
        ⟨place, source, pending, picked, listed, waiting, fitting, done⟩
      · rw [expanded] at failed
        cases failed
      · rw [expanded] at done
        cases done
        exact ⟨listed, pending, waiting, Or.inl ⟨enough, fitting, nonempty, weights, place, source,
          picked, weighed, rfl, rfl⟩⟩
  · obtain ⟨forced, pending, listed, waiting, same, done⟩ :=
      prepared.expand_forced member needed picker (not_le.1 enough)
    rw [expanded] at done
    cases done
    exact ⟨listed, pending, waiting, Or.inr ⟨not_le.1 enough, same, rfl⟩⟩

theorem Prepared.expand_asks (enough : 0 ≤ start.slack)
    (expanded : (generator.expand picker symbol).run start = (.ok production, later)) :
    Asked generator picker symbol start (.ok production) later ∧ 0 ≤ later.slack := by
  obtain ⟨_, pending, _, taken⟩ := prepared.expand_cases member needed expanded
  rcases taken with ⟨_, fitting, nonempty, weights, place, source, picked, weighed, same, rfl⟩ |
    ⟨short, _⟩
  · have left := Progress.slack_charged (start.drawn source
      (drawOf (generator.offered symbol start.slack least) weights)) least pending
    rw [Progress.slack_drawn] at left
    constructor
    · unfold Asked
      rw [candidates_at_eq needed]
      exact ⟨nonempty, weights, .ok place, weighed, picked, congrArg Except.ok same, rfl⟩
    · omega
  · omega

theorem Prepared.expand_fails {fault : Fault}
    (failed : (generator.expand picker symbol).run start = (.error fault, final)) :
    Overweight generator symbol start fault final ∨
      Asked generator picker symbol start (.error fault) final := by
  by_cases enough : 0 ≤ start.slack
  · have nonempty := prepared.offered_nonempty member needed enough
    rcases prepared.expand_asked member needed picker enough with
      ⟨other, unweighed, stopped⟩ | ⟨nonempty, weights, weighed, asked⟩
    · rw [failed] at stopped
      cases stopped
      rw [← candidates_at_eq needed] at unweighed nonempty
      have heavy := unsummed_of_unweighed unweighed
      exact Or.inl ⟨List.ne_nil_of_length_pos nonempty, heavy.2, heavy.1, rfl, rfl⟩
    · rcases asked with ⟨other, source, unpicked, stopped⟩ | ⟨_, _, _, _, _, _, _, done⟩
      · rw [failed] at stopped
        cases stopped
        right
        unfold Asked
        rw [candidates_at_eq needed]
        exact ⟨nonempty, weights, .error fault, weighed, unpicked, rfl, rfl⟩
      · rw [failed] at done
        cases done
  · obtain ⟨_, _, _, _, _, done⟩ :=
      prepared.expand_forced member needed picker (not_le.1 enough)
    rw [failed] at done
    cases done

theorem Prepared.expand_accounts
    (expanded : (generator.expand picker symbol).run start = (.ok production, later)) :
    production ∈ generator.alternatives symbol ∧
      ∃ pending, generator.pending production = some pending ∧
        later.remaining = start.remaining - 1 ∧
        later.reserved = start.reserved - least + pending ∧
        (0 ≤ start.slack → (pending : Int) + 1 ≤ start.slack + least) ∧
        (start.slack < 0 → pending + 1 = least) := by
  obtain ⟨listed, pending, waiting, taken⟩ := prepared.expand_cases member needed expanded
  refine ⟨listed, pending, waiting, ?_⟩
  rcases taken with ⟨enough, fitting, _, _, _, _, _, _, _, rfl⟩ | ⟨short, same, rfl⟩
  · refine ⟨rfl, rfl, fun _ => fitting, ?_⟩
    intro short
    omega
  · refine ⟨rfl, rfl, ?_, fun _ => same⟩
    intro enough
    omega

end Expanding

end Generator

end GrammarKit
