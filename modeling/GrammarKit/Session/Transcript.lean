import GrammarKit.Sentence.Generator

/-!
# Transcripts

A transcript lists the draws from a source of choices in order. Transcripts are numbered as they are
opened. Draws can be entered in any of them at any time, so a number stands for whatever has been
entered under it by now, not for what was there when the number was handed out.
-/

namespace GrammarKit

set_option autoImplicit false

/-- Transcripts by number. In each the latest draw comes first. -/
structure Transcripts where
  entries : Array (List Draw) := #[]

namespace Transcripts

def opened (transcripts : Transcripts) : Nat × Transcripts :=
  (transcripts.entries.size, ⟨transcripts.entries.push []⟩)

/-- Enters draws, the latest one first, in a transcript. -/
def enter (transcripts : Transcripts) (number : Nat) (draws : List Draw) : Transcripts :=
  ⟨transcripts.entries.modify number fun earlier => draws ++ earlier⟩

def draws (transcripts : Transcripts) (number : Nat) : List Draw :=
  (transcripts.entries[number]?.getD []).reverse

theorem draws_opened (transcripts : Transcripts) (number : Nat) :
    transcripts.opened.2.draws number = transcripts.draws number := by
  simp only [draws, opened, Array.getElem?_push]
  split
  · next last => simp [last]
  · rfl

theorem draws_enter {transcripts : Transcripts} {number : Nat} {draws : List Draw}
    (known : number < transcripts.entries.size) :
    (transcripts.enter number draws).draws number
      = transcripts.draws number ++ draws.reverse := by
  simp [Transcripts.draws, enter, Array.getElem_modify, known]

theorem draws_enter_other {transcripts : Transcripts} {number other : Nat} {draws : List Draw}
    (different : other ≠ number) :
    (transcripts.enter number draws).draws other = transcripts.draws other := by
  simp [Transcripts.draws, enter, Array.getElem?_modify, Ne.symm different]

end Transcripts

/-- A source that is kept, with the number of the transcript that its draws are entered in. -/
structure KeptSource where
  source : Source
  transcript : Nat

end GrammarKit
