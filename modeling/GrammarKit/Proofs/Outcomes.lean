import GrammarKit.Journal

/-!
# Outcomes of checks in a row

A row of checks has an answer exactly when each of them has one, and a list of answers comes from a
list of questions one by one.
-/

namespace GrammarKit

set_option autoImplicit false

variable {α β : Type}

theorem except_bind_eq_ok_iff {first : Except Fault α} {next : α → Except Fault β} {result : β} :
    first >>= next = .ok result ↔ ∃ value, first = .ok value ∧ next value = .ok result := by
  cases first with
  | error fault => simp [bind, Except.bind]
  | ok value => simp [bind, Except.bind]

theorem noted_bind_eq_ok_iff {first : Noted α} {next : α → Noted β} {result : β} :
    (first >>= next).outcome = .ok result ↔
      ∃ value, first.outcome = .ok value ∧ (next value).outcome = .ok result := by
  cases outcome : first.outcome with
  | error fault => simp [Noted.outcome_bind_error outcome]
  | ok value => simp [Noted.outcome_bind_ok outcome]

theorem except_map_m_mem {ask : α → Except Fault β} {items : List α} {answers : List β}
    (asked : items.mapM ask = .ok answers) :
    ∀ answer ∈ answers, ∃ item ∈ items, ask item = .ok answer := by
  induction items generalizing answers with
  | nil =>
      cases asked
      simp
  | cons item rest ih =>
      rw [List.mapM_cons] at asked
      obtain ⟨first, head, asked⟩ := except_bind_eq_ok_iff.1 asked
      obtain ⟨others, tail, asked⟩ := except_bind_eq_ok_iff.1 asked
      cases asked
      intro answer member
      rcases List.mem_cons.1 member with rfl | among
      · exact ⟨item, by simp, head⟩
      · obtain ⟨other, present, answered⟩ := ih tail answer among
        exact ⟨other, by simp [present], answered⟩

theorem except_map_m_answered {ask : α → Except Fault β} {items : List α} {answers : List β}
    (asked : items.mapM ask = .ok answers) :
    ∀ item ∈ items, ∃ answer ∈ answers, ask item = .ok answer := by
  induction items generalizing answers with
  | nil => simp
  | cons item rest ih =>
      rw [List.mapM_cons] at asked
      obtain ⟨first, head, asked⟩ := except_bind_eq_ok_iff.1 asked
      obtain ⟨others, tail, asked⟩ := except_bind_eq_ok_iff.1 asked
      cases asked
      intro other member
      rcases List.mem_cons.1 member with rfl | among
      · exact ⟨first, by simp, head⟩
      · obtain ⟨answer, present, answered⟩ := ih tail other among
        exact ⟨answer, by simp [present], answered⟩

theorem require_eq_ok_iff {found : Option α} {fault : Fault} {value : α} :
    require found fault = .ok value ↔ found = some value := by
  cases found <;> simp

theorem require_eq_error_iff {found : Option α} {fault other : Fault} :
    require found fault = .error other ↔ found = none ∧ fault = other := by
  cases found <;> simp

theorem except_map_m_ok {ask : α → Except Fault β} {answer : α → β} {items : List α}
    (each : ∀ item ∈ items, ask item = .ok (answer item)) :
    items.mapM ask = .ok (items.map answer) := by
  induction items with
  | nil => rfl
  | cons item rest ih =>
      have later := ih (fun other member => each other (by simp [member]))
      rw [List.mapM_cons, each item (by simp), later]
      rfl

theorem except_map_m_map {γ : Type} {ask : α → Except Fault β} {other : α → Except Fault γ}
    {change : β → γ} {items : List α} (each : ∀ item ∈ items, other item = (ask item).map change) :
    items.mapM other = (items.mapM ask).map (List.map change) := by
  induction items with
  | nil => rfl
  | cons item rest ih =>
      have later := ih (fun other member => each other (by simp [member]))
      rw [List.mapM_cons, List.mapM_cons, each item (by simp), later]
      cases ask item with
      | error fault => rfl
      | ok first => cases rest.mapM ask <;> rfl

theorem except_map_eq_ok_iff {outcome : Except Fault α} {change : α → β} {result : β} :
    outcome.map change = .ok result ↔ ∃ value, outcome = .ok value ∧ change value = result := by
  cases outcome <;> simp [Except.map]

theorem except_bind_map {γ : Type} {outcome : Except Fault α} {change : α → β}
    {next : β → Except Fault γ} :
    outcome.map change >>= next = outcome >>= fun value => next (change value) := by
  cases outcome <;> rfl

theorem except_bind_congr {first : Except Fault α} {next other : α → Except Fault β}
    (same : ∀ value, first = .ok value → next value = other value) :
    first >>= next = first >>= other := by
  cases first with
  | error fault => rfl
  | ok value => exact same value rfl

theorem except_map_m_congr {ask other : α → Except Fault β} {items : List α}
    (same : ∀ item ∈ items, ask item = other item) : items.mapM ask = items.mapM other := by
  induction items with
  | nil => rfl
  | cons item rest ih =>
      rw [List.mapM_cons, List.mapM_cons, same item (by simp),
        ih (fun later member => same later (by simp [member]))]

/-- Where each answer tells the mark of its question, the answers tell the marks in order. -/
theorem except_map_m_told {γ : Type} {ask : α → Except Fault β} {mark : α → γ} {question : β → γ}
    (told : ∀ item answer, ask item = .ok answer → question answer = mark item) {items : List α}
    {answers : List β} (asked : items.mapM ask = .ok answers) :
    answers.map question = items.map mark := by
  induction items generalizing answers with
  | nil =>
      cases asked
      rfl
  | cons item rest ih =>
      rw [List.mapM_cons] at asked
      obtain ⟨first, head, asked⟩ := except_bind_eq_ok_iff.1 asked
      obtain ⟨others, tail, asked⟩ := except_bind_eq_ok_iff.1 asked
      cases asked
      rw [List.map_cons, List.map_cons, told item first head, ih tail]

theorem except_map_m_restored {ask : α → Except Fault β} {question : β → α}
    (told : ∀ item answer, ask item = .ok answer → question answer = item) {items : List α}
    {answers : List β} (asked : items.mapM ask = .ok answers) : answers.map question = items :=
  (except_map_m_told told asked).trans (List.map_id items)

theorem except_for_m_of_map_m {check : α → Except Fault Unit} {ask : α → Except Fault β}
    {items : List α} (each : ∀ item ∈ items, check item = (ask item).map fun _ => ()) :
    items.forM check = (items.mapM ask).map fun _ => () := by
  induction items with
  | nil => rfl
  | cons item rest ih =>
      have later := ih (fun other member => each other (by simp [member]))
      change (check item >>= fun _ => rest.forM check) = _
      rw [List.mapM_cons, each item (by simp), later]
      cases ask item with
      | error fault => rfl
      | ok first => cases rest.mapM ask <;> rfl

theorem except_map_m_flat_map {γ : Type} {group : α → List β} {ask : β → Except Fault γ}
    {items : List α} : (items.flatMap group).mapM ask =
      (items.mapM fun item => (group item).mapM ask).map List.flatten := by
  induction items with
  | nil => rfl
  | cons item rest ih =>
      rw [List.flatMap_cons, List.mapM_append, List.mapM_cons, ih]
      cases (group item).mapM ask with
      | error fault => rfl
      | ok first => cases rest.mapM fun item => (group item).mapM ask <;> rfl

theorem except_map_m_first {ask : α → Except Fault β} {faulty : α → Bool} {items : List α}
    {fault : Fault} (asked : items.mapM ask = .error fault)
    (told : ∀ item ∈ items, faulty item = true ↔ ∀ answer, ask item ≠ .ok answer) :
    ∃ item, items.find? faulty = some item ∧ ask item = .error fault := by
  induction items with
  | nil => cases asked
  | cons first rest ih =>
      rw [List.mapM_cons] at asked
      cases head : ask first with
      | error _ =>
          rw [head] at asked
          cases asked
          have hit : faulty first = true :=
            (told first (by simp)).2 fun answer answered => by simp [head] at answered
          exact ⟨first, List.find?_cons_of_pos hit, head⟩
      | ok answer =>
          have missed : ¬faulty first = true := fun hit =>
            (told first (by simp)).1 hit answer head
          rw [head] at asked
          cases later : rest.mapM ask with
          | error _ =>
              rw [later] at asked
              cases asked
              obtain ⟨item, found, failed⟩ :=
                ih later fun other member => told other (by simp [member])
              exact ⟨item, by rw [List.find?_cons_of_neg missed, found], failed⟩
          | ok _ =>
              rw [later] at asked
              cases asked

/-- Where each question has at most one finding, all findings together are those of the items with
one. -/
theorem except_map_m_filtered {ask : α → Except Fault (List β)} {holds : α → Prop}
    [DecidablePred holds] {finding : α → β} {items : List α}
    (each : ∀ item ∈ items, ask item = .ok (if holds item then [finding item] else [])) :
    (items.mapM ask >>= fun found => pure found.flatten) =
      .ok ((items.filter fun item => holds item).map finding) := by
  rw [except_map_m_ok each]
  change Except.ok _ = Except.ok _
  rw [Except.ok.injEq]
  clear each
  induction items with
  | nil => rfl
  | cons item rest ih =>
      rw [List.map_cons, List.flatten_cons, ih]
      by_cases found : holds item
      · simp [found]
      · simp [found]

/-- Questions that are put to some items only, where the groups of the others are empty. -/
theorem except_map_m_wanted {ask : α → Except Fault β} {group : α → List β} {wanted : α → Prop}
    [DecidablePred wanted] {items : List α}
    (asked : ∀ item ∈ items, wanted item → ∃ answer, ask item = .ok answer ∧ group item = [answer])
    (left : ∀ item ∈ items, ¬wanted item → group item = []) :
    (items.filter fun item => wanted item).mapM ask = .ok (items.flatMap group) := by
  induction items with
  | nil => rfl
  | cons item rest ih =>
      have later := ih (fun other member => asked other (by simp [member]))
        (fun other member => left other (by simp [member]))
      rw [List.flatMap_cons]
      by_cases here : wanted item
      · obtain ⟨answer, answered, single⟩ := asked item (by simp) here
        rw [List.filter_cons_of_pos (by simpa using here), List.mapM_cons, answered, later, single]
        rfl
      · rw [List.filter_cons_of_neg (by simpa using here), later, left item (by simp) here]
        rfl

theorem except_for_m_ok {check : α → Except Fault Unit} {items : List α}
    (checked : items.forM check = .ok ()) : ∀ item ∈ items, check item = .ok () := by
  induction items with
  | nil => simp
  | cons item rest ih =>
      change check item >>= (fun _ => rest.forM check) = _ at checked
      rcases except_bind_eq_ok_iff.1 checked with ⟨⟨⟩, head, tail⟩
      intro other member
      rcases List.mem_cons.1 member with rfl | among
      · exact head
      · exact ih tail other among

theorem except_fold_m_error {step : β → α → Except Fault β} {items : List α} {start : β}
    {fault : Fault} (failed : items.foldlM step start = .error fault) :
    ∃ front item rest total, items = front ++ item :: rest ∧
      front.foldlM step start = .ok total ∧ step total item = .error fault := by
  induction items generalizing start with
  | nil => cases failed
  | cons first rest ih =>
      rw [List.foldlM_cons] at failed
      cases head : step start first with
      | error _ =>
          rw [head] at failed
          cases failed
          exact ⟨[], first, rest, start, rfl, rfl, head⟩
      | ok next =>
          rw [head] at failed
          obtain ⟨front, item, later, total, rfl, folded, last⟩ := ih failed
          refine ⟨first :: front, item, later, total, rfl, ?_, last⟩
          rw [List.foldlM_cons, head]
          exact folded

theorem noted_id_map (noted : Noted α) : id <$> noted = noted := by
  change noted.andThen pure = noted
  unfold Noted.andThen
  cases outcome : noted.outcome <;> simp [← outcome, pure]

theorem noted_bind_assoc {γ : Type} (first : Noted α) (next : α → Noted β) (last : β → Noted γ) :
    first >>= next >>= last = first >>= fun value => next value >>= last := by
  change (first.andThen next).andThen last = first.andThen fun value => (next value).andThen last
  unfold Noted.andThen
  cases first.outcome with
  | error fault => rfl
  | ok value => cases outcome : (next value).outcome <;> simp [outcome]

instance : LawfulMonad Noted :=
  LawfulMonad.mk' Noted noted_id_map (fun _ _ => rfl) noted_bind_assoc

theorem noted_map_m_ok {ask : α → Noted β} {answer : α → β} {items : List α}
    (each : ∀ item ∈ items, (ask item).outcome = .ok (answer item)) :
    (items.mapM ask).outcome = .ok (items.map answer) := by
  induction items with
  | nil => rfl
  | cons item rest ih =>
      have later := ih (fun other member => each other (by simp [member]))
      rw [List.mapM_cons, Noted.outcome_bind_ok (each item (by simp)),
        Noted.outcome_bind_ok later]
      rfl

theorem noted_map_m_total {ask : α → Noted β} {items : List α}
    (each : ∀ item ∈ items, ∃ answer, (ask item).outcome = .ok answer) :
    ∃ answers, (items.mapM ask).outcome = .ok answers := by
  induction items with
  | nil => exact ⟨[], rfl⟩
  | cons item rest ih =>
      obtain ⟨answer, head⟩ := each item (by simp)
      obtain ⟨answers, later⟩ := ih fun other member => each other (by simp [member])
      refine ⟨answer :: answers, ?_⟩
      rw [List.mapM_cons, Noted.outcome_bind_ok head, Noted.outcome_bind_ok later]
      rfl

theorem noted_map_m_stops {ask : α → Noted β} {front rest : List α} {item : α} {fault : Fault}
    (before : ∀ other ∈ front, ∃ answer, (ask other).outcome = .ok answer)
    (failed : (ask item).outcome = .error fault) :
    ((front ++ item :: rest).mapM ask).outcome = .error fault := by
  obtain ⟨answers, answered⟩ := noted_map_m_total before
  rw [List.mapM_append, Noted.outcome_bind_ok answered, List.mapM_cons]
  exact Noted.outcome_bind_error (Noted.outcome_bind_error failed)

theorem noted_for_m_ok {act : α → Noted PUnit} {items : List α}
    (each : ∀ item ∈ items, (act item).outcome = .ok ⟨⟩) :
    (items.forM act).outcome = .ok ⟨⟩ := by
  induction items with
  | nil => rfl
  | cons item rest ih =>
      change (act item >>= fun _ => rest.forM act).outcome = _
      rw [Noted.outcome_bind_ok (each item (by simp))]
      exact ih (fun other member => each other (by simp [member]))

theorem noted_for_m_note (event : α → Note) (items : List α) :
    (items.forM fun item => Noted.note (event item)) = ⟨items.map event, .ok ⟨⟩⟩ := by
  induction items with
  | nil => rfl
  | cons item rest ih =>
      change (Noted.note (event item) >>= fun _ =>
        rest.forM fun item => Noted.note (event item)) = _
      rw [ih]
      rfl

theorem noted_for_m_quiet {act : α → Noted PUnit} {items : List α}
    (each : ∀ item ∈ items, act item = ⟨[], .ok ⟨⟩⟩) : items.forM act = ⟨[], .ok ⟨⟩⟩ := by
  induction items with
  | nil => rfl
  | cons item rest ih =>
      change (act item >>= fun _ => rest.forM act) = _
      rw [each item (by simp), ih (fun other member => each other (by simp [member]))]
      rfl

end GrammarKit
