import GrammarKit.Session.Basic
import GrammarKit.Tree.Picture

/-!
# Requests for things under construction

Nodes of hand-built trees are kept by id, and one set of declarations is kept for editing.
-/

namespace GrammarKit.Session

set_option autoImplicit false

/-- Plants a node. An id that is in use stands for the new node from now on. -/
def plantNode (id : String) (symbol : Symbol) (children : List String) : Action Sprout := do
  let places ← children.mapM node
  modify fun session =>
    let (place, arena) := session.arena.plant ⟨symbol, places⟩
    { session with arena := arena, nodes := session.nodes.put id place }
  return ⟨symbol, places⟩

def appendNode (parentId childId : String) : Action Sprout := do
  let parent ← node parentId
  let child ← node childId
  modify fun session => { session with arena := session.arena.append parent child }
  require ((← get).arena.sprout? parent) (.unknownKey parentId)

def tree (id : String) : Action DerivationTree := do
  let place ← node id
  require ((← get).arena.tree? place) (.unknownKey id)

def leaves (id : String) : Action (List Symbol) := do
  let place ← node id
  return (← get).arena.leaves place

def editDeclarations (edit : Declarations → Declarations) : Action Unit :=
  modify fun session => { session with declarations := edit session.declarations }

/-- Adds a rule and returns the number of rules. -/
def addRule (name : String) (alternatives : List Alternative) : Action Nat := do
  editDeclarations fun declarations => declarations.addRule name alternatives
  return (← get).declarations.rules.length

def removeRule (index : Int) : Action Unit := do
  let rules := (← get).declarations.rules
  let place ← require (slot? rules.length index) .outsideDeclarations
  editDeclarations fun declarations => { declarations with rules := rules.eraseIdx place }

/-- Builds a grammar from the declarations as they are and adds it to the session's list. -/
def buildGrammar (variant : Variant) : Action Grammar := do
  let grammar ← (← get).declarations.compile variant
  modify fun session => { session with grammars := session.grammars ++ [grammar] }
  return grammar

end GrammarKit.Session
