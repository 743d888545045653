import GrammarKit.Tree.Derivation

/-!
# Trees under construction

While trees are put together by hand, nodes live in an arena and refer to their children by place.
A node may be a child of several nodes, and all of them see it when it gets a further child.
-/

namespace GrammarKit

set_option autoImplicit false

structure Sprout where
  symbol : Symbol
  children : List Nat
deriving DecidableEq, Repr

namespace Sprout

def text (sprout : Sprout) : String :=
  sprout.symbol.name ++ ":" ++ toString sprout.children.length

def summary (sprout : Sprout) : String := "Node(" ++ sprout.text ++ ")"

end Sprout

structure Arena where
  sprouts : List Sprout

namespace Arena

def empty : Arena := ⟨[]⟩

def sprout? (arena : Arena) (place : Nat) : Option Sprout := arena.sprouts[place]?

def plant (arena : Arena) (sprout : Sprout) : Nat × Arena :=
  (arena.sprouts.length, ⟨arena.sprouts ++ [sprout]⟩)

def append (arena : Arena) (parent child : Nat) : Arena :=
  ⟨arena.sprouts.modify parent fun sprout =>
    { sprout with children := sprout.children ++ [child] }⟩

def unfold (arena : Arena) : Nat → Nat → Option DerivationTree
  | 0, _ => none
  | fuel + 1, place =>
      (arena.sprout? place).map fun sprout =>
        .node ⟨sprout.symbol, none⟩ (sprout.children.filterMap (arena.unfold fuel))

/-- The tree below a node. Without a cycle no tree is deeper than the arena has nodes. -/
def tree? (arena : Arena) (place : Nat) : Option DerivationTree :=
  arena.unfold arena.sprouts.length place

/-- The terminals at the frontier below a node. What hangs below a terminal is not looked at. -/
def leavesBelow (arena : Arena) : Nat → Nat → List Symbol
  | 0, _ => []
  | fuel + 1, place =>
      match arena.sprout? place with
      | none => []
      | some sprout =>
          if sprout.symbol.isTerminal then [sprout.symbol]
          else sprout.children.flatMap (arena.leavesBelow fuel)

def leaves (arena : Arena) (place : Nat) : List Symbol :=
  arena.leavesBelow arena.sprouts.length place

end Arena

end GrammarKit
